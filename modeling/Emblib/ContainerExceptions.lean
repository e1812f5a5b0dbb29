import Emblib.ThrowingElements

/-! The containers when the constructor of an element throws. Nothing puts an object right behind an
exception, so it is intact if the slots that are alive are those at the logical positions in the
middle of the member function already. The object of a constructor that throws is never destroyed. -/
namespace Emblib.ContainerExceptions
open Programs SlotLifetimes InplaceLifetimes InplaceScripts ThrowingElements
open CircularBufferRefinement (Answer Operation)
open InplaceStorage hiding perform

/-! ## The containers, with references as arguments -/

def bufferCall (config : Config) : Operation (Argument T) → Method T (Answer (Slot T))
  | .pushBack value => do CircularBuffer.pushBack config value; return .done
  | .pushFront value => do CircularBuffer.pushFront config value; return .done
  | .emplaceBack args => do CircularBuffer.emplaceBack config args; return .done
  | .emplaceFront args => do CircularBuffer.emplaceFront config args; return .done
  | .tryPushBack value => do return .flag (← CircularBuffer.tryPushBack config value)
  | .tryPushFront value => do return .flag (← CircularBuffer.tryPushFront config value)
  | .popFront => do CircularBuffer.popFront config; return .done
  | .popBack => do CircularBuffer.popBack config; return .done
  | .tryPopFront => do return .element (← CircularBuffer.tryPopFront config)
  | .tryPopBack => do return .element (← CircularBuffer.tryPopBack config)
  | .fill value => do CircularBuffer.fill config value; return .done
  | .clear => do CircularBuffer.clear config; return .done
  | .front => do return .element (some (← CircularBuffer.front))
  | .back => do return .element (some (← CircularBuffer.back config))
  | .get i => do return .element (some (← CircularBuffer.get config i))
  | .size => do return .count (← CircularBuffer.size)
  | .capacity => do return .count (← CircularBuffer.capacity config)
  | .empty => do return .flag (← CircularBuffer.empty)
  | .full => do return .flag (← CircularBuffer.full config)

def queueCall (config : Config) : QueueOperation (Argument T) → Method T (Answer (Slot T))
  | .push value => do InplaceQueue.push config value; return .done
  | .emplace args => do InplaceQueue.emplace config args; return .done
  | .tryPush value => do return .flag (← InplaceQueue.tryPush config value)
  | .pop => do InplaceQueue.pop config; return .done
  | .tryPop => do return .element (← InplaceQueue.tryPop config)
  | .clear => do InplaceQueue.clear config; return .done
  | .front => do return .element (some (← InplaceQueue.front))
  | .back => do return .element (some (← InplaceQueue.back config))
  | .size => do return .count (← InplaceQueue.size)
  | .capacity => do return .count (← InplaceQueue.capacity config)
  | .empty => do return .flag (← InplaceQueue.empty)
  | .full => do return .flag (← InplaceQueue.full config)

def stackCall (config : Config) : StackOperation (Argument T) → Method T (Answer (Slot T))
  | .push value => do InplaceStack.push config value; return .done
  | .emplace args => do InplaceStack.emplace config args; return .done
  | .tryPush value => do return .flag (← InplaceStack.tryPush config value)
  | .pop => do InplaceStack.pop config; return .done
  | .tryPop => do return .element (← InplaceStack.tryPop config)
  | .clear => do InplaceStack.clear config; return .done
  | .top => do return .element (some (← InplaceStack.top))
  | .size => do return .count (← InplaceStack.size)
  | .capacity => do return .count (← InplaceStack.capacity config)
  | .empty => do return .flag (← InplaceStack.empty)
  | .full => do return .flag (← InplaceStack.full config)

def vectorCall (config : Config) : VectorOperation (Argument T) → Method T (Answer (Slot T))
  | .pushBack value => do InplaceVector.pushBack config value; return .done
  | .emplaceBack args => do InplaceVector.emplaceBack config args; return .done
  | .tryPushBack value => do return .flag (← InplaceVector.tryPushBack config value)
  | .popBack => do InplaceVector.popBack config; return .done
  | .tryPopBack => do return .element (← InplaceVector.tryPopBack config)
  | .clear => do InplaceVector.clear config; return .done
  | .get i => do return .element (some (← InplaceVector.get i))
  | .front => do return .element (some (← InplaceVector.front))
  | .back => do return .element (some (← InplaceVector.back))
  | .size => do return .count (← InplaceVector.size)
  | .capacity => do return .count (← InplaceVector.capacity config)
  | .empty => do return .flag (← InplaceVector.empty)
  | .full => do return .flag (← InplaceVector.full config)

/-- The classes. What an operation requires is left to the accesses that it makes. -/
def container (T : Type) (config : Config) : Kind → Container T
  | .circularBuffer =>
    { Kind.circularBuffer.container T config with
      Operation := Operation (Argument T), allowed := fun _ _ => True, perform := bufferCall config }
  | .inplaceQueue =>
    { Kind.inplaceQueue.container T config with
      Operation := QueueOperation (Argument T), allowed := fun _ _ => True, perform := queueCall config }
  | .inplaceStack =>
    { Kind.inplaceStack.container T config with
      Operation := StackOperation (Argument T), allowed := fun _ _ => True, perform := stackCall config }
  | .inplaceVector =>
    { Kind.inplaceVector.container T config with
      Operation := VectorOperation (Argument T), allowed := fun _ _ => True, perform := vectorCall config }

/-! ## What an exception may do -/

/-- The object that the command constructs. -/
def Constructs : Command N O → N → Prop
  | .construct this, name => name = this
  | .copyConstruct this _ _, name => name = this
  | .moveConstruct this _ _, name => name = this
  | _, _ => False

/-- The slots that are alive in the objects that there are behind the exception are those at the
logical positions, and a later destructor destroys each of them once; no element is left in the
object that was to be constructed. -/
structure Intact [DecidableEq N] (config : Config) (container : Container T)
    (command : Command N container.Operation) (left : N → Object T) : Prop where
  exact : ∀ name, ¬Constructs command name → Exact config container.position (left name)
  destroyed : ∀ name, ¬Constructs command name →
    Obeys (family access) (At (Legal config)) (container.destructor.on name) left ∧
      ∀ k, history name k (requests (family access) (container.destructor.on name) left) =
        if alive ((left name).slots k) then [.destroyed] else []
  unleaked : ∀ name, Constructs command name → ∀ k, (left name).slots k = .dead

/-- The exceptions that leave the object of an operation intact, by the number of elements
constructed before: a push onto a full buffer has destroyed the element that makes room, and
`fill` counts its elements at the end. -/
def bufferWithstands (config : Config) : Operation (Argument T) → Object T → Nat → Prop
  | .pushBack _, object, _ => object.size ≠ config.capacity
  | .pushFront _, object, _ => object.size ≠ config.capacity
  | .emplaceBack _, object, _ => object.size ≠ config.capacity
  | .emplaceFront _, object, _ => object.size ≠ config.capacity
  | .fill _, _, count => count = 0
  | _, _, _ => True

def operationWithstands (config : Config) :
    (kind : Kind) → (container T config kind).Operation → Object T → Nat → Prop
  | .circularBuffer, op, object, count => bufferWithstands config op object count
  | _, _, _, _ => True

/-- An assignment counts its elements one by one. So does a constructor, but nothing destroys what
it has constructed. -/
def Withstands (operation : O → Object T → Nat → Prop) : Command N O → (N → Object T) → Nat → Prop
  | .operate this op, states, count => operation op (states this) count
  | .copyConstruct _ _ _, _, count => count = 0
  | .moveConstruct _ _ _, _, count => count = 0
  | _, _, _ => True

/-! ## The four classes -/

/-- Where exceptions leave the objects of a class, member function by member function. -/
structure Guarded (config : Config) (container : Container T)
    (operation : container.Operation → Object T → Nat → Prop) : Prop where
  perform : ∀ op object, Exact config container.position object →
    OnThrow access (Legal config) ConstructorThrows (container.perform op) object fun done left =>
      Exact config container.position left ↔ operation op object (constructions done)
  destructor : Clears config container.position container.destructor
  quiet : container.destructor.Issues Quiet
  copyConstruct : ∀ {N : Type} [DecidableEq N] {this other : N} {states : N → Object T}, this ≠ other →
    Ready config container.position this states →
      OnThrow (family access) (At (Legal config)) (familyThrows ConstructorThrows)
        (container.copyConstruct this other) states
        fun done left => Abandoned config container.position this (built done) left
  moveConstruct : ∀ {N : Type} [DecidableEq N] {this other : N} {states : N → Object T}, this ≠ other →
    Ready config container.position this states →
      OnThrow (family access) (At (Legal config)) (familyThrows ConstructorThrows)
        (container.moveConstruct this other) states
        fun done left => Abandoned config container.position this (built done) left
  copyAssign : ∀ {N : Type} [DecidableEq N] {this other : N} {states : N → Object T},
    (∀ name, Exact config container.position (states name)) →
      OnThrow (family access) (At (Legal config)) (familyThrows ConstructorThrows)
        (container.copyAssign this other) states
        fun _ left => ∀ name, Exact config container.position (left name)
  moveAssign : ∀ {N : Type} [DecidableEq N] {this other : N} {states : N → Object T},
    (∀ name, Exact config container.position (states name)) →
      OnThrow (family access) (At (Legal config)) (familyThrows ConstructorThrows)
        (container.moveAssign this other) states
        fun _ left => ∀ name, Exact config container.position (left name)

section Guarded
variable {T A B : Type} {config : Config} {position : Nat → Nat → Nat} {object : Object T}

/-- The answer of a member function throws nothing. -/
theorem onThrow_answer {method : Method T A} (answer : A → B) {post : List (Access T) → Object T → Prop}
    (throwing : OnThrow access (Legal config) ConstructorThrows method object post) :
    OnThrow access (Legal config) ConstructorThrows (do return answer (← method)) object post :=
  (onThrow_bind _).mpr ⟨throwing, fun _ => (onThrow_pure _).mpr trivial⟩

theorem onThrow_try {test : Method T Bool} {push : Method T Unit} {full : Bool}
    {post : List (Access T) → Object T → Prop} (tested : run access test object = (full, object))
    (quiet : test.Issues Quiet)
    (throwing : full = false → OnThrow access (Legal config) ConstructorThrows push object
      fun done => post (requests access test object ++ done)) :
    OnThrow access (Legal config) ConstructorThrows (do
      if ← test then return false
      push
      return true : Method T Bool) object post := by
  refine (onThrow_bind _).mpr ⟨onThrow_of_quiet quiet, fun _ => ?_⟩
  rw [tested]
  cases full with
  | true => exact (onThrow_pure _).mpr trivial
  | false => exact onThrow_answer (fun _ => true) (throwing rfl)

/-- An exception that leaves the same slots alive. -/
theorem alike_withstands {method : Method T A} (exact : Exact config position object)
    (throwing : OnThrow access (Legal config) ConstructorThrows method object fun _ left => Alike object left) :
    OnThrow access (Legal config) ConstructorThrows method object fun _ left =>
      Exact config position left ↔ True :=
  onThrow_mono throwing fun _ _ alike => iff_true_intro (alike_exact alike exact)

/-- A push that breaks a full buffer and leaves another one alike. -/
theorem push_withstands {push : Method T Unit} (exact : Exact config position object)
    (breaks : object.size = config.capacity → OnThrow access (Legal config) ConstructorThrows push object
      fun _ left => ¬Exact config position left)
    (leaves : object.size ≠ config.capacity → OnThrow access (Legal config) ConstructorThrows push object
      fun _ left => Alike object left) :
    OnThrow access (Legal config) ConstructorThrows push object fun _ left =>
      Exact config position left ↔ object.size ≠ config.capacity := by
  by_cases full : object.size = config.capacity
  · refine onThrow_mono (breaks full) fun _ _ broken => ?_
    exact iff_of_false broken (not_not.mpr full)
  · refine onThrow_mono (leaves full) fun _ _ alike => ?_
    exact iff_of_true (alike_exact alike exact) full

variable (nontrivial : config.triviallyDestructible = false)
include nontrivial

theorem pushBack_onThrow (value : Argument T) (exact : Exact config (ring config) object) :
    OnThrow access (Legal config) ConstructorThrows (CircularBuffer.pushBack config value) object
      fun _ left => Exact config (ring config) left ↔ object.size ≠ config.capacity :=
  push_withstands exact (pushBack_full value nontrivial exact) (pushBack_room value)

theorem pushFront_onThrow (value : Argument T) (exact : Exact config (ring config) object) :
    OnThrow access (Legal config) ConstructorThrows (CircularBuffer.pushFront config value) object
      fun _ left => Exact config (ring config) left ↔ object.size ≠ config.capacity :=
  push_withstands exact (pushFront_full value nontrivial) (pushFront_room value)

theorem buffer_onThrow (op : Operation (Argument T)) (object : Object T)
    (exact : Exact config (ring config) object) :
    OnThrow access (Legal config) ConstructorThrows (bufferCall config op) object fun done left =>
      Exact config (ring config) left ↔ bufferWithstands config op object (constructions done) := by
  have call {A : Type} {method : Method T A} {post : List (Access T) → Object T → Prop}
      (answer : A → Answer (Slot T))
      (throwing : OnThrow access (Legal config) ConstructorThrows method object post) :=
    onThrow_answer answer throwing
  cases op with
  | pushBack value => exact call (fun _ => .done) (pushBack_onThrow nontrivial value exact)
  | pushFront value => exact call (fun _ => .done) (pushFront_onThrow nontrivial value exact)
  | emplaceBack args => exact call (fun _ => .done) (pushBack_onThrow nontrivial args exact)
  | emplaceFront args => exact call (fun _ => .done) (pushFront_onThrow nontrivial args exact)
  | tryPushBack value =>
    refine call .flag (onThrow_try rfl ⟨trivial, fun _ => trivial⟩ fun room => ?_)
    exact alike_withstands exact (pushBack_room value (beq_eq_false_iff_ne.mp room))
  | tryPushFront value =>
    refine call .flag (onThrow_try rfl ⟨trivial, fun _ => trivial⟩ fun room => ?_)
    exact alike_withstands exact (pushFront_room value (beq_eq_false_iff_ne.mp room))
  | popFront => exact call (fun _ => .done) (popFront_onThrow nontrivial)
  | popBack => exact call (fun _ => .done) (popBack_onThrow nontrivial)
  | tryPopFront => exact call .element (alike_withstands exact (tryPopFront_onThrow nontrivial exact))
  | tryPopBack => exact call .element (alike_withstands exact (tryPopBack_onThrow nontrivial exact))
  | fill value => exact call (fun _ => .done) (fill_onThrow nontrivial value exact)
  | clear => exact call (fun _ => .done) (onThrow_of_quiet clear_quiet)
  | front | back | get | size | capacity | empty | full =>
    simp [bufferCall, CircularBuffer.front, CircularBuffer.back, CircularBuffer.get, CircularBuffer.size,
      CircularBuffer.capacity, CircularBuffer.empty, CircularBuffer.full, CircularBuffer.indexOf, ConstructorThrows]

theorem queue_onThrow (op : QueueOperation (Argument T)) (object : Object T)
    (exact : Exact config (ring config) object) :
    OnThrow access (Legal config) ConstructorThrows (queueCall config op) object fun _ left =>
      Exact config (ring config) left ↔ True := by
  have call {A : Type} {method : Method T A} {post : List (Access T) → Object T → Prop}
      (answer : A → Answer (Slot T))
      (throwing : OnThrow access (Legal config) ConstructorThrows method object post) :=
    onThrow_answer answer throwing
  cases op with
  | push value => exact call (fun _ => .done) (alike_withstands exact (queueEmplace_onThrow value))
  | emplace args => exact call (fun _ => .done) (alike_withstands exact (queueEmplace_onThrow args))
  | tryPush value =>
    refine call .flag (onThrow_try rfl ⟨trivial, fun _ => trivial⟩ fun _ => ?_)
    exact alike_withstands exact (queueEmplace_onThrow value)
  | pop => exact call (fun _ => .done) (popFront_onThrow nontrivial)
  | tryPop => exact call .element (alike_withstands exact (tryPopFront_onThrow nontrivial exact))
  | clear => exact call (fun _ => .done) (onThrow_of_quiet clear_quiet)
  | front | back | size | capacity | empty | full =>
    simp [queueCall, InplaceQueue.front, InplaceQueue.back, InplaceQueue.size, InplaceQueue.capacity,
      InplaceQueue.empty, InplaceQueue.full, CircularBuffer.front, CircularBuffer.back, CircularBuffer.size,
      CircularBuffer.capacity, CircularBuffer.empty, CircularBuffer.full, CircularBuffer.indexOf, ConstructorThrows]

theorem stack_onThrow (op : StackOperation (Argument T)) (object : Object T)
    (exact : Exact config linear object) :
    OnThrow access (Legal config) ConstructorThrows (stackCall config op) object fun _ left =>
      Exact config linear left ↔ True := by
  have call {A : Type} {method : Method T A} {post : List (Access T) → Object T → Prop}
      (answer : A → Answer (Slot T))
      (throwing : OnThrow access (Legal config) ConstructorThrows method object post) :=
    onThrow_answer answer throwing
  cases op with
  | push value => exact call (fun _ => .done) (alike_withstands exact (stackEmplace_onThrow value))
  | emplace args => exact call (fun _ => .done) (alike_withstands exact (stackEmplace_onThrow args))
  | tryPush value =>
    refine call .flag (onThrow_try rfl ⟨trivial, fun _ => trivial⟩ fun _ => ?_)
    exact alike_withstands exact (stackEmplace_onThrow value)
  | pop => exact call (fun _ => .done) (stackPop_onThrow nontrivial)
  | tryPop => exact call .element (alike_withstands exact (stackTryPop_onThrow nontrivial exact))
  | clear => exact call (fun _ => .done) (onThrow_of_quiet stackClear_quiet)
  | top | size | capacity | empty | full =>
    simp [stackCall, InplaceStack.top, InplaceStack.size, InplaceStack.capacity, InplaceStack.empty,
      InplaceStack.full, ConstructorThrows]

theorem vector_onThrow (op : VectorOperation (Argument T)) (object : Object T)
    (exact : Exact config linear object) :
    OnThrow access (Legal config) ConstructorThrows (vectorCall config op) object fun _ left =>
      Exact config linear left ↔ True := by
  have call {A : Type} {method : Method T A} {post : List (Access T) → Object T → Prop}
      (answer : A → Answer (Slot T))
      (throwing : OnThrow access (Legal config) ConstructorThrows method object post) :=
    onThrow_answer answer throwing
  cases op with
  | pushBack value => exact call (fun _ => .done) (alike_withstands exact (stackEmplace_onThrow value))
  | emplaceBack args => exact call (fun _ => .done) (alike_withstands exact (stackEmplace_onThrow args))
  | tryPushBack value =>
    refine call .flag (onThrow_try rfl ⟨trivial, fun _ => trivial⟩ fun _ => ?_)
    exact alike_withstands exact (stackEmplace_onThrow value)
  | popBack => exact call (fun _ => .done) (stackPop_onThrow nontrivial)
  | tryPopBack => exact call .element (alike_withstands exact (stackTryPop_onThrow nontrivial exact))
  | clear => exact call (fun _ => .done) (onThrow_of_quiet stackClear_quiet)
  | get | front | back | size | capacity | empty | full =>
    simp [vectorCall, InplaceVector.get, InplaceVector.front, InplaceVector.back, InplaceVector.size,
      InplaceVector.capacity, InplaceVector.empty, InplaceVector.full, InplaceStack.top, InplaceStack.size,
      InplaceStack.capacity, InplaceStack.empty, InplaceStack.full, ConstructorThrows]

/-- A container with the special member functions of `circular_buffer`. -/
theorem ring_guarded (operations : Type) (allowed : operations → Object T → Prop)
    (perform : operations → Method T (Answer (Slot T)))
    (operation : operations → Object T → Nat → Prop)
    (throwing : ∀ op object, Exact config (ring config) object →
      OnThrow access (Legal config) ConstructorThrows (perform op) object fun done left =>
        Exact config (ring config) left ↔ operation op object (constructions done)) :
    Guarded config
      { Kind.circularBuffer.container T config with Operation := operations, allowed, perform } operation where
  perform := throwing
  destructor := (ring_disciplined nontrivial operations (fun _ _ => False) perform fun _ _ _ => False.elim).destructor
  quiet := by
    simp only [Kind.container, CircularBuffer.destructor, nontrivial]
    exact clear_quiet
  copyConstruct := fun different ready => by
    simp only [Kind.container, CircularBuffer.copyConstruct, elements_copied nontrivial]
    exact copyConstruct_onThrow (fun i below => ring_aligned below) different ring_reads ring_reads_safely ready
  moveConstruct := fun different ready => by
    simp only [Kind.container, CircularBuffer.moveConstruct, elements_copied nontrivial]
    exact onThrow_cleared clear_quiet
      (copyConstruct_onThrow (fun i below => ring_aligned below) different ring_takes ring_takes_safely ready)
  copyAssign := fun exact => by
    simp only [Kind.container, CircularBuffer.copyAssign, elements_copied nontrivial]
    exact assign_onThrow (ring_clears nontrivial) clear_quiet exact fun states different ready =>
      copyFrom_onThrow different ring_reads ring_reads_safely ready
  moveAssign := fun exact => by
    simp only [Kind.container, CircularBuffer.moveAssign, elements_copied nontrivial]
    exact assign_onThrow (ring_clears nontrivial) clear_quiet exact fun states different ready =>
      onThrow_cleared clear_quiet (copyFrom_onThrow different ring_takes ring_takes_safely ready)

/-- A container with the special member functions of `inplace_stack`. -/
theorem stack_guarded (operations : Type) (allowed : operations → Object T → Prop)
    (perform : operations → Method T (Answer (Slot T)))
    (throwing : ∀ op object, Exact config linear object →
      OnThrow access (Legal config) ConstructorThrows (perform op) object fun _ left =>
        Exact config linear left ↔ True) :
    Guarded config
      { Kind.inplaceStack.container T config with Operation := operations, allowed, perform }
      fun _ _ _ => True where
  perform := throwing
  destructor := (stack_disciplined nontrivial operations (fun _ _ => False) perform fun _ _ _ => False.elim).destructor
  quiet := by
    simp only [Kind.container, InplaceStack.destructor, nontrivial]
    exact stackClear_quiet
  copyConstruct := fun different ready => by
    simp only [Kind.container, InplaceStack.copyConstruct, elements_copied nontrivial]
    exact copyConstruct_onThrow (fun i _ => rfl) different linear_reads linear_reads_safely ready
  moveConstruct := fun different ready => by
    simp only [Kind.container, InplaceStack.moveConstruct, elements_copied nontrivial]
    exact onThrow_cleared stackClear_quiet
      (copyConstruct_onThrow (fun i _ => rfl) different linear_takes linear_takes_safely ready)
  copyAssign := fun exact => by
    simp only [Kind.container, InplaceStack.copyAssign, elements_copied nontrivial]
    exact assign_onThrow (stack_clears nontrivial) stackClear_quiet exact fun states different ready =>
      copyFrom_onThrow different linear_reads linear_reads_safely ready
  moveAssign := fun exact => by
    simp only [Kind.container, InplaceStack.moveAssign, elements_copied nontrivial]
    exact assign_onThrow (stack_clears nontrivial) stackClear_quiet exact fun states different ready =>
      onThrow_cleared stackClear_quiet (copyFrom_onThrow different linear_takes linear_takes_safely ready)

theorem container_guarded (kind : Kind) :
    Guarded config (container T config kind) (operationWithstands config kind) := by
  cases kind with
  | circularBuffer => exact ring_guarded nontrivial _ _ _ _ (buffer_onThrow nontrivial)
  | inplaceQueue => exact ring_guarded nontrivial _ _ _ _ (queue_onThrow nontrivial)
  | inplaceStack => exact stack_guarded nontrivial _ _ _ (stack_onThrow nontrivial)
  | inplaceVector => exact stack_guarded nontrivial _ _ _ (vector_onThrow nontrivial)

end Guarded

/-! ## Commands -/

section Commands
variable {N T : Type} [DecidableEq N] {config : Config} {container : Container T}
  {operation : container.Operation → Object T → Nat → Prop}
  {command : Command N container.Operation} {states left : N → Object T}

/-- The history of a slot in which nothing is constructed. -/
theorem destructions (tracked : track state events = some false) (only : ∀ event ∈ events, event = .destroyed) :
    events = if state then [.destroyed] else [] := by
  cases events with
  | nil =>
    cases tracked
    rfl
  | cons first rest =>
    obtain rfl := only first List.mem_cons_self
    cases state with
    | false => cases tracked
    | true =>
      cases rest with
      | nil => rfl
      | cons second rest =>
        obtain rfl := only second (List.mem_cons_of_mem _ List.mem_cons_self)
        cases tracked

/-- The destructor destroys what is alive, once. -/
theorem destroyed_once (guarded : Guarded config container operation)
    (exact : Exact config container.position (left name)) :
    Obeys (family access) (At (Legal config)) (container.destructor.on name) left ∧
      ∀ k, history name k (requests (family access) (container.destructor.on name) left) =
        if alive ((left name).slots k) then [.destroyed] else [] := by
  obtain ⟨obeys, cleared⟩ := guarded.destructor _ exact
  have legal := (obeys_at name container.destructor left).mpr obeys
  refine ⟨legal, fun k => destructions ?_ ?_⟩
  · have tracked := history_tracked name k _ left legal
    simp only [run_on, Function.update_self, alive_eq_false.mpr (cleared.dead k)] at tracked
    exact tracked
  · intro happened member
    rw [requests_on, history, List.filterMap_map] at member
    obtain ⟨effect, asked, made⟩ := List.mem_filterMap.mp member
    have silent := requests_issues guarded.quiet _ effect asked
    simp only [Function.comp_apply, event, if_true] at made
    cases effect <;> grind [Quiet]

/-- All objects that there are behind the exception are exact. -/
theorem intact_of_exact (guarded : Guarded config container operation)
    (none : ∀ name, ¬Constructs command name)
    (exact : ∀ name, Exact config container.position (left name)) : Intact config container command left where
  exact := fun name _ => exact name
  destroyed := fun name _ => destroyed_once guarded (exact name)
  unleaked := fun name constructs => absurd constructs (none name)

/-- The object of a constructor that throws is intact if it is empty. -/
theorem intact_abandoned (guarded : Guarded config container operation) {this : N}
    (constructs : ∀ name, Constructs command name ↔ name = this)
    (abandoned : Abandoned config container.position this count left) :
    Intact config container command left ↔ count = 0 := by
  constructor
  · intro intact
    by_contra some
    have here := intact.unleaked this ((constructs this).mpr rfl) 0
    exact holds_alive abandoned.holds (Nat.pos_of_ne_zero some) here
  · rintro rfl
    refine ⟨fun name other => ?_, fun name other => ?_, fun name same => ?_⟩
    · exact abandoned.exact name fun same => other ((constructs name).mpr same)
    · exact destroyed_once guarded (abandoned.exact name fun same => other ((constructs name).mpr same))
    · rw [(constructs name).mp same]
      exact holds_zero abandoned.holds

/-- A command that returns nothing. -/
theorem onThrow_done {code : Code N T Unit} {post : List (N × Access T) → (N → Object T) → Prop}
    (throwing : OnThrow (family access) (At (Legal config)) (familyThrows ConstructorThrows) code states post) :
    OnThrow (family access) (At (Legal config)) (familyThrows ConstructorThrows)
      (do code; return (.done : Answer (Slot T))) states post :=
  (onThrow_bind _).mpr ⟨throwing, fun _ => (onThrow_pure _).mpr trivial⟩

/-- What is constructed anew has been destroyed before. -/
theorem onThrow_anew (guarded : Guarded config container operation) {this : N} {code : Code N T (Answer (Slot T))}
    (post : Nat → (N → Object T) → Prop) (exact : ∀ name, Exact config container.position (states name))
    (throwing : ∀ states, Ready config container.position this states →
      OnThrow (family access) (At (Legal config)) (familyThrows ConstructorThrows) code states
        fun done => post (built done)) :
    OnThrow (family access) (At (Legal config)) (familyThrows ConstructorThrows)
      (do container.destructor.on this; code) states fun done => post (built done) := by
  obtain ⟨_, ready⟩ := @clear_ready _ _ _ _ _ this _ _ guarded.destructor exact
  refine (onThrow_bind _).mpr ⟨(onThrow_at _ _ _).mpr (onThrow_of_quiet guarded.quiet), fun _ => ?_⟩
  have none := constructions_of_quiet guarded.quiet (states this)
  simp only [requests_on, built_append, built_map, none, Nat.zero_add]
  exact throwing _ ready

theorem code_onThrow (guarded : Guarded config container operation) (command : Command N container.Operation)
    (exact : ∀ name, Exact config container.position (states name)) :
    OnThrow (family access) (At (Legal config)) (familyThrows ConstructorThrows) (code container command) states
      fun done left => Intact config container command left ↔ Withstands operation command states (built done) := by
  cases command with
  | operate this op =>
    refine (onThrow_at _ _ _).mpr (onThrow_mono (guarded.perform op _ (exact this)) fun done left withstands => ?_)
    rw [built_map, Withstands, ← withstands]
    constructor
    · intro intact
      have here := intact.exact this id
      rwa [Function.update_self] at here
    · exact fun after => intact_of_exact guarded (fun _ => id) (exact_update exact after)
  | construct this =>
    refine onThrow_anew guarded (fun _ left => Intact config container (.construct this) left ↔ True) exact
      fun states _ => onThrow_done ((onThrow_at _ _ _).mpr ?_)
    exact onThrow_of_quiet (perform_quiet (.setBytes .initial) trivial)
  | copyConstruct this other different =>
    refine onThrow_anew guarded (fun count left =>
      Intact config container (.copyConstruct this other different) left ↔ count = 0) exact
      fun states ready => onThrow_done ?_
    refine onThrow_mono (guarded.copyConstruct different ready) fun done left abandoned => ?_
    exact intact_abandoned guarded (fun _ => Iff.rfl) abandoned
  | moveConstruct this other different =>
    refine onThrow_anew guarded (fun count left =>
      Intact config container (.moveConstruct this other different) left ↔ count = 0) exact
      fun states ready => onThrow_done ?_
    refine onThrow_mono (guarded.moveConstruct different ready) fun done left abandoned => ?_
    exact intact_abandoned guarded (fun _ => Iff.rfl) abandoned
  | copyAssign this other =>
    refine onThrow_done (onThrow_mono (guarded.copyAssign exact) fun done left after => ?_)
    exact iff_of_true (intact_of_exact guarded (fun _ => id) after) trivial
  | moveAssign this other =>
    refine onThrow_done (onThrow_mono (guarded.moveAssign exact) fun done left after => ?_)
    exact iff_of_true (intact_of_exact guarded (fun _ => id) after) trivial

end Commands

/-- **Exceptions leave the containers intact, except for three kinds**: that of a push or emplacement
onto a full circular buffer, that of `fill` behind its first element, and that of a constructor that
copies or moves behind the first element. -/
theorem intact_iff_withstands {N T : Type} [DecidableEq N] {config : Config}
    (nontrivial : config.triviallyDestructible = false) (kind : Kind)
    (command : Command N (container T config kind).Operation) {states left : N → Object T}
    {done : List (N × Access T)}
    (exact : ∀ name, Exact config (container T config kind).position (states name))
    (interrupted : Interrupted (family access) (At (Legal config)) (familyThrows ConstructorThrows)
      (code (container T config kind) command) states done left) :
    Intact config (container T config kind) command left ↔
      Withstands (operationWithstands config kind) command states (built done) :=
  code_onThrow (container_guarded nontrivial kind) command exact done left interrupted

section Testing
open CircularBufferCopies (testingConfig)

/-- A full buffer and one with room for an element. -/
def testingStates (full : Bool) : Object UInt8 where
  front := 0
  size := if full then 2 else 1
  slots := fun index => if index < if full then 2 else 1 then .live 7 else .dead

theorem testingStates_exact (name : Bool) :
    Exact testingConfig (ring testingConfig) (testingStates name) where
  front := testingConfig.positive
  size := by cases name <;> decide
  holds := fun index => by
    have inside : (testingStates name).slots index ≠ .dead ↔ index < (testingStates name).size := by
      simp [testingStates]
    have bound : (testingStates name).size ≤ testingConfig.capacity := by cases name <;> decide
    rw [inside]
    constructor
    · exact fun below => ⟨index, below, ring_aligned (below.trans_le bound)⟩
    · rintro ⟨i, below, rfl⟩
      rw [show (testingStates name).front = 0 from rfl, ring_aligned (below.trans_le bound)]
      exact below

/-- An exception of an operation on one of the buffers. -/
theorem testing_interrupted (name : Bool) {op : Operation (Argument UInt8)} {done : List (Access UInt8)}
    {left : Object UInt8}
    (interrupted : Interrupted access (Legal testingConfig) ConstructorThrows (bufferCall testingConfig op)
      (testingStates name) done left) :
    Interrupted (family access) (At (Legal testingConfig)) (familyThrows ConstructorThrows)
      (code (container UInt8 testingConfig .circularBuffer) (.operate name op)) testingStates
      (done.map (name, ·)) (Function.update testingStates name left) :=
  (onThrow_at name _ testingStates).mp (fun _ _ happens => happens) done left interrupted

/-- The element that is pushed onto a buffer with room throws, and that which is moved out of the other one. -/
theorem intact_iff_withstands_testing :
    Intact testingConfig (container UInt8 testingConfig .circularBuffer) (.operate false (Operation.pushBack (.outside 8)))
        (Function.update testingStates false (testingStates false)) ∧
      Intact testingConfig (container UInt8 testingConfig .circularBuffer) (.operate true Operation.tryPopFront)
        (Function.update testingStates true
          { testingStates true with slots := Function.update (testingStates true).slots 0 .moved }) := by
  have pushing : Interrupted access (Legal testingConfig) ConstructorThrows
      (bufferCall testingConfig (.pushBack (.outside 8))) (testingStates false) [.size, .front, .size]
      (testingStates false) :=
    ⟨rfl, trivial, rfl, trivial, rfl, trivial, rfl⟩
  have popping : Interrupted access (Legal testingConfig) ConstructorThrows
      (bufferCall testingConfig .tryPopFront) (testingStates true) [.size, .front]
      { testingStates true with slots := Function.update (testingStates true).slots 0 .moved } :=
    ⟨rfl, trivial, rfl, trivial, .inr rfl⟩
  constructor
  · exact (intact_iff_withstands rfl .circularBuffer (.operate false (Operation.pushBack (.outside 8)))
      testingStates_exact (testing_interrupted false pushing)).mpr (by show 1 ≠ 2; decide)
  · exact (intact_iff_withstands rfl .circularBuffer (.operate true Operation.tryPopFront) testingStates_exact
      (testing_interrupted true popping)).mpr trivial

/-- The element that is pushed onto a full buffer throws: the slot of the first element is empty, but
the size counts it still. -/
theorem full_push_leaves_hole :
    let left := Function.update testingStates true
      { testingStates true with slots := Function.update (testingStates true).slots 0 .dead }
    Interrupted (family access) (At (Legal testingConfig)) (familyThrows ConstructorThrows)
        (code (container UInt8 testingConfig .circularBuffer) (.operate true (Operation.pushBack (.outside 8))))
        testingStates [(true, .size), (true, .front), (true, .size), (true, .destroy 0)] left ∧
      ¬Intact testingConfig (container UInt8 testingConfig .circularBuffer)
        (.operate true (Operation.pushBack (.outside 8))) left := by
  intro left
  have interrupted : Interrupted access (Legal testingConfig) ConstructorThrows
      (bufferCall testingConfig (.pushBack (.outside 8))) (testingStates true)
      [.size, .front, .size, .destroy 0]
      { testingStates true with slots := Function.update (testingStates true).slots 0 .dead } :=
    ⟨rfl, trivial, rfl, trivial, rfl, trivial, rfl, ⟨testingConfig.positive, nofun⟩, rfl⟩
  refine ⟨testing_interrupted true interrupted, fun intact => ?_⟩
  exact holds_alive (intact.exact true id).holds Nat.two_pos rfl

end Testing
end Emblib.ContainerExceptions

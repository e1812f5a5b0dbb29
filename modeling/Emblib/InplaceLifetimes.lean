import Emblib.SlotLifetimes
import Emblib.CircularBufferRefinement
import Emblib.InplaceQueue
import Emblib.InplaceStack

/-! The four containers keep to the lifetimes of their elements. Each member function is
shown to ask only for what the slots allow and to leave alive exactly the slots at the
logical positions; a script of operations, copies and moves then does so as well. -/
namespace Emblib.InplaceLifetimes
open Programs SlotLifetimes Counters
open Program (times timesDown)
open InplaceStorage hiding perform

/-- The slots that are alive are those of the positions below the size. A position is a slot
when it is known where the container starts. -/
structure Exact (config : Config) (position : Nat → Nat → Nat) (object : Object T) : Prop where
  front : object.front < config.capacity
  size : object.size ≤ config.capacity
  holds : Holds object.slots (position object.front) object.size

/-- An object without elements, that starts at its first slot. -/
structure Cleared (config : Config) (position : Nat → Nat → Nat) (object : Object T) : Prop where
  front : object.front < config.capacity
  size : object.size = 0
  dead : ∀ k, object.slots k = .dead
  aligned : ∀ i, i < config.capacity → position object.front i = i

theorem cleared_exact (cleared : Cleared config position object) : Exact config position object where
  front := cleared.front
  size := cleared.size ▸ Nat.zero_le _
  holds := by
    rw [cleared.size]
    exact zero_holds cleared.dead

/-- Called on this object, the method asks only for what the slots allow and leaves alive
the slots of the new size. -/
def Keeps (config : Config) (position : Nat → Nat → Nat) (method : Method T A) (object : Object T) :
    Prop :=
  Obeys access (Legal config) method object ∧ Exact config position (run access method object).2

/-- The position in a ring that starts at `front`. -/
def ring (config : Config) (front i : Nat) : Nat := (front + i) % config.capacity

/-- The position in a container that starts at the first slot. -/
def linear (_ i : Nat) : Nat := i

section Methods
variable {T A B : Type} {config : Config} {position : Nat → Nat → Nat} {object : Object T}

theorem keeps_pure (value : A) (exact : Exact config position object) :
    Keeps config position (.pure value) object :=
  ⟨trivial, exact⟩

theorem keeps_bind {method : Method T A} {next : A → Method T B}
    (first : Keeps config position method object)
    (rest : Keeps config position (next (run access method object).1) (run access method object).2) :
    Keeps config position (method >>= next) object := by
  unfold Keeps
  rw [obeys_bind, run_bind]
  exact ⟨⟨first.1, rest.1⟩, rest.2⟩

/-- The same method with a different answer. -/
theorem keeps_answer {method : Method T A} (answer : A → B)
    (keeps : Keeps config position method object) :
    Keeps config position (do return answer (← method)) object :=
  keeps_bind keeps (keeps_pure _ keeps.2)

/-- A push that is tried, by a test that only looks. -/
theorem keeps_try {test : Method T Bool} {push : Method T Unit} {full : Bool}
    (tested : run access test object = (full, object)) (looks : Obeys access (Legal config) test object)
    (exact : Exact config position object) (pushed : full = false → Keeps config position push object) :
    Keeps config position (do
      if ← test then return false
      push
      return true : Method T Bool) object := by
  refine keeps_bind ⟨looks, tested ▸ exact⟩ ?_
  rw [tested]
  cases full with
  | true => exact keeps_pure _ exact
  | false => exact keeps_answer (fun _ => true) (pushed rfl)

end Methods

/-! ## Rings -/

section Ring
variable {T : Type} {config : Config} {object : Object T} {value : Slot T}

theorem ring_lt (front i : Nat) : ring config front i < config.capacity :=
  Nat.mod_lt _ config.positive

theorem ring_zero (inside : front < config.capacity) : ring config front 0 = front :=
  Nat.mod_eq_of_lt inside

/-- Two positions within a lap have different slots. -/
theorem ring_ne (less : i < j) (lap : j < i + config.capacity) :
    ring config front i ≠ ring config front j := by
  have low : front + i ≤ front + j := by omega
  exact slot_ne (by omega) (Nat.le_refl _) (by omega) low (by omega)

/-- The position after the first is the first of the ring that starts there. -/
theorem ring_next : ring config ((front + 1) % config.capacity) i = ring config front (i + 1) := by
  rw [ring, ring, Nat.mod_add_mod, Nat.add_assoc, Nat.add_comm 1]

theorem ring_before :
    ring config ((front + config.capacity - 1) % config.capacity) (i + 1) = ring config front i := by
  have positive := config.positive
  have lap : front + config.capacity - 1 + (i + 1) = front + i + config.capacity := by omega
  rw [ring, ring, Nat.mod_add_mod, lap, Nat.add_mod_right]

/-- A lap later there is the same slot. -/
theorem ring_lap : ring config front config.capacity = ring config front 0 :=
  Nat.add_mod_right _ _

variable (exact : Exact config (ring config) object)
include exact

theorem ring_alive (below : i < object.size) : object.slots (ring config object.front i) ≠ .dead :=
  holds_alive exact.holds below

/-- The slot behind the last is free if there is room. -/
theorem ring_free (room : object.size < config.capacity) :
    object.slots (ring config object.front object.size) = .dead :=
  holds_dead exact.holds fun _ below => ring_ne below (by omega)

theorem ring_pushBack (room : object.size < config.capacity) (living : value ≠ .dead) :
    Exact config (ring config) { object with
      slots := Function.update object.slots (ring config object.front object.size) value
      size := object.size + 1 } where
  front := exact.front
  size := room
  holds := holds_pushLast exact.holds living

theorem ring_popBack (pending : 0 < object.size) :
    Exact config (ring config) { object with
      slots := Function.update object.slots (ring config object.front (object.size - 1)) .dead
      size := object.size - 1 } where
  front := exact.front
  size := Nat.le_trans (Nat.sub_le _ _) exact.size
  holds := by
    have bound := exact.size
    have holds := exact.holds
    rw [← Nat.sub_add_cancel pending] at holds
    exact holds_popLast holds fun _ below => ring_ne below (by omega)

theorem ring_popFront (pending : 0 < object.size) :
    Exact config (ring config)
      { front := (object.front + 1) % config.capacity
        slots := Function.update object.slots (ring config object.front 0) .dead
        size := object.size - 1 } where
  front := Nat.mod_lt _ config.positive
  size := Nat.le_trans (Nat.sub_le _ _) exact.size
  holds := by
    have bound := exact.size
    have holds := exact.holds
    rw [← Nat.sub_add_cancel pending] at holds
    have rest := holds_popFirst holds fun i (below : i < object.size - 1) =>
      (ring_ne (Nat.succ_pos i) (by omega)).symm
    exact holds_congr rest fun i _ => ring_next.symm

/-- The position before the first is free if there is room. -/
theorem ring_free_before (room : object.size < config.capacity) :
    object.slots ((object.front + config.capacity - 1) % config.capacity) = .dead := by
  refine holds_dead exact.holds fun i below same => ?_
  have first : (object.front + config.capacity - 1) % config.capacity =
      ring config ((object.front + config.capacity - 1) % config.capacity) 0 :=
    (ring_zero (Nat.mod_lt _ config.positive)).symm
  rw [first, ← ring_before] at same
  exact ring_ne (Nat.succ_pos i) (by omega) same.symm

theorem ring_pushFront (room : object.size < config.capacity) (living : value ≠ .dead) :
    Exact config (ring config)
      { front := (object.front + config.capacity - 1) % config.capacity
        slots := Function.update object.slots
          ((object.front + config.capacity - 1) % config.capacity) value
        size := object.size + 1 } where
  front := Nat.mod_lt _ config.positive
  size := room
  holds := by
    have first := @ring_zero config _ (Nat.mod_lt (object.front + config.capacity - 1) config.positive)
    have shifted := holds_congr exact.holds fun i _ => ring_before.symm
    have pushed := holds_pushFirst shifted living
    rwa [first] at pushed

/-- The first element of a full ring makes room for a last one in its slot. -/
theorem ring_overwriteBack (full : object.size = config.capacity) (living : value ≠ .dead) :
    Exact config (ring config) { object with
      slots := Function.update object.slots (ring config object.front object.size) value
      front := (object.front + 1) % config.capacity } := by
  have positive := config.positive
  have pushed := ring_pushBack (ring_popFront exact (by omega)) (by simp only [full]; omega) living
  have one : object.size - 1 + 1 = object.size := by omega
  have lap : ring config object.front 0 = ring config object.front object.size := by
    rw [full, ring_lap]
  simp only [ring_next, one, lap, Function.update_idem] at pushed
  exact pushed

/-- The last element of a full ring makes room for a first one in its slot. -/
theorem ring_overwriteFront (full : object.size = config.capacity) (living : value ≠ .dead) :
    Exact config (ring config) { object with
      slots := Function.update object.slots ((object.front + config.capacity - 1) % config.capacity) value
      front := (object.front + config.capacity - 1) % config.capacity } := by
  have positive := config.positive
  have pushed := ring_pushFront (ring_popBack exact (by omega)) (by simp only [full]; omega) living
  have one : object.size - 1 + 1 = object.size := by omega
  have last : ring config object.front (object.size - 1) =
      (object.front + config.capacity - 1) % config.capacity := by
    rw [full, ring, Nat.add_sub_assoc positive]
  simp only [last, one, Function.update_idem] at pushed
  exact pushed

end Ring

/-! What the small member functions ask for. -/

section Observers
variable {T : Type} {config : Config} {object : Object T} {rule : Access T → Object T → Prop}

@[simp] theorem obeys_size : Obeys access rule CircularBuffer.size object ↔ rule .size object :=
  obeys_perform _ _

@[simp] theorem obeys_empty : Obeys access rule CircularBuffer.empty object ↔ rule .size object := by
  simp [CircularBuffer.empty]

@[simp] theorem obeys_full : Obeys access rule (CircularBuffer.full config) object ↔
    rule .size object := by
  simp [CircularBuffer.full]

@[simp] theorem obeys_indexOf (offset : Nat) :
    Obeys access rule (CircularBuffer.indexOf config offset) object ↔ rule .front object := by
  simp [CircularBuffer.indexOf]

theorem obeys_destroySlot (nontrivial : config.triviallyDestructible = false) (i : Nat) :
    Obeys access rule (CircularBuffer.destroySlot config i) object ↔ rule (.destroy i) object := by
  simp [CircularBuffer.destroySlot, nontrivial]

end Observers

section RingMethods
variable {T : Type} {config : Config} {object : Object T}

theorem ring_front (exact : Exact config (ring config) object) (pending : 0 < object.size) :
    object.slots object.front ≠ .dead := by
  have here := ring_alive exact pending
  rwa [ring_zero exact.front] at here

theorem ring_taken (exact : Exact config (ring config) object) (below : i < object.size) :
    Exact config (ring config) { object with
      slots := Function.update object.slots (ring config object.front i) .moved } where
  front := exact.front
  size := exact.size
  holds := holds_update exact.holds below (nomatch ·)

theorem front_keeps (exact : Exact config (ring config) object) (pending : object.size ≠ 0) :
    Keeps config (ring config) (CircularBuffer.front : Method T (Slot T)) object := by
  have living := ring_front exact (Nat.pos_of_ne_zero pending)
  simp [Keeps, CircularBuffer.front, Legal, access, pending, exact.front, living]
  exact exact

theorem back_keeps (exact : Exact config (ring config) object) (pending : object.size ≠ 0) :
    Keeps config (ring config) (CircularBuffer.back config : Method T (Slot T)) object := by
  simp [Keeps, CircularBuffer.back, Legal, access, pending]
  exact ⟨⟨ring_lt _ _, ring_alive exact (Nat.sub_one_lt pending)⟩, exact⟩

theorem get_keeps (exact : Exact config (ring config) object) (inside : i < object.size) :
    Keeps config (ring config) (CircularBuffer.get config i : Method T (Slot T)) object := by
  simp [Keeps, CircularBuffer.get, Legal, access, inside]
  exact ⟨⟨ring_lt _ _, ring_alive exact inside⟩, exact⟩

theorem queueEmplace_keeps (value : T) (exact : Exact config (ring config) object)
    (room : object.size ≠ config.capacity) :
    Keeps config (ring config) (InplaceQueue.emplace config (.outside value)) object := by
  have below := Nat.lt_of_le_of_ne exact.size room
  constructor
  · simp [InplaceQueue.emplace, InplaceQueue.size, InplaceQueue.indexOf, Legal, access, room]
    exact ⟨ring_lt _ _, ring_free exact below⟩
  · exact ring_pushBack exact below live_ne_dead

variable (nontrivial : config.triviallyDestructible = false)
include nontrivial

theorem pushBack_keeps (value : T) (exact : Exact config (ring config) object) :
    Keeps config (ring config) (CircularBuffer.pushBack config (.outside value)) object := by
  by_cases full : object.size = config.capacity
  · have first := ring_front exact (full ▸ config.positive)
    constructor
    · simp [CircularBuffer.pushBack, CircularBuffer.emplaceBack, CircularBuffer.writeBackWith,
        obeys_destroySlot nontrivial, Legal, access, full, nontrivial,
        Nat.mod_eq_of_lt exact.front, exact.front, first, InplaceStorage.destroySlot]
    · rw [CircularBufferRefinement.run_pushBack_full full]
      exact ring_overwriteBack exact full live_ne_dead
  · have room := Nat.lt_of_le_of_ne exact.size full
    constructor
    · simp [CircularBuffer.pushBack, CircularBuffer.emplaceBack, CircularBuffer.writeBackWith,
        Legal, access, full]
      exact ⟨ring_lt _ _, ring_free exact room⟩
    · rw [CircularBufferRefinement.run_pushBack_room full]
      exact ring_pushBack exact room live_ne_dead

theorem pushFront_keeps (value : T) (exact : Exact config (ring config) object) :
    Keeps config (ring config) (CircularBuffer.pushFront config (.outside value)) object := by
  have inside := Nat.mod_lt (object.front + config.capacity - 1) config.positive
  by_cases full : object.size = config.capacity
  · have last := ring_alive exact (Nat.sub_one_lt (full ▸ Nat.ne_of_gt config.positive))
    rw [ring, full, ← Nat.add_sub_assoc config.positive] at last
    constructor
    · simp [CircularBuffer.pushFront, CircularBuffer.emplaceFront, CircularBuffer.writeFrontWith,
        obeys_destroySlot nontrivial, Legal, access, full, nontrivial, inside, last,
        InplaceStorage.destroySlot]
    · rw [CircularBufferRefinement.run_pushFront_full full]
      exact ring_overwriteFront exact full live_ne_dead
  · have room := Nat.lt_of_le_of_ne exact.size full
    constructor
    · simp [CircularBuffer.pushFront, CircularBuffer.emplaceFront, CircularBuffer.writeFrontWith,
        Legal, access, full]
      exact ⟨inside, ring_free_before exact room⟩
    · rw [CircularBufferRefinement.run_pushFront_room full]
      exact ring_pushFront exact room live_ne_dead

theorem popFront_keeps (exact : Exact config (ring config) object) (pending : object.size ≠ 0) :
    Keeps config (ring config) (CircularBuffer.popFront config) object := by
  have some := Nat.pos_of_ne_zero pending
  have living := ring_front exact some
  constructor
  · simp [CircularBuffer.popFront, obeys_destroySlot nontrivial, Legal, access, pending, exact.front, living]
  · have popped := ring_popFront exact some
    rw [ring_zero exact.front] at popped
    rw [CircularBufferRefinement.run_popFront, InplaceStorage.destroySlot, nontrivial]
    exact popped

theorem popBack_keeps (exact : Exact config (ring config) object) (pending : object.size ≠ 0) :
    Keeps config (ring config) (CircularBuffer.popBack config) object := by
  constructor
  · simp [CircularBuffer.popBack, obeys_destroySlot nontrivial, Legal, access, pending]
    exact ⟨ring_lt _ _, ring_alive exact (Nat.sub_one_lt pending)⟩
  · rw [CircularBufferRefinement.run_popBack, InplaceStorage.destroySlot, nontrivial]
    exact ring_popBack exact (Nat.pos_of_ne_zero pending)

theorem tryPopFront_keeps (exact : Exact config (ring config) object) :
    Keeps config (ring config) (CircularBuffer.tryPopFront config) object := by
  by_cases pending : object.size = 0
  · simp [Keeps, CircularBuffer.tryPopFront, Legal, pending]
    exact exact
  · have some := Nat.pos_of_ne_zero pending
    have taken := ring_taken exact some
    rw [ring_zero exact.front] at taken
    have popped := popFront_keeps nontrivial taken pending
    simp [Keeps, CircularBuffer.tryPopFront, Legal, access, pending, exact.front, ring_front exact some] at popped ⊢
    exact popped

theorem tryPopBack_keeps (exact : Exact config (ring config) object) :
    Keeps config (ring config) (CircularBuffer.tryPopBack config) object := by
  by_cases pending : object.size = 0
  · simp [Keeps, CircularBuffer.tryPopBack, Legal, pending]
    exact exact
  · have below := Nat.sub_one_lt pending
    have popped := popBack_keeps nontrivial (ring_taken exact below) pending
    simp [Keeps, CircularBuffer.tryPopBack, Legal, access, pending] at popped ⊢
    exact ⟨⟨⟨ring_lt _ _, ring_alive exact below⟩, popped.1⟩, popped.2⟩

/-- Round `i` of the loop destroys the first of the elements that are left. -/
theorem clear_round (exact : Exact config (ring config) object) (below : i < object.size)
    (front : left.front = object.front) (size : left.size = object.size)
    (holds : Holds left.slots (fun j => ring config object.front (j + i)) (object.size - i)) :
    let round := do CircularBuffer.destroySlot config (← CircularBuffer.indexOf config i)
    Obeys access (Legal config) round left ∧
      (run access round left).2.front = object.front ∧ (run access round left).2.size = object.size ∧
      Holds (run access round left).2.slots (fun j => ring config object.front (j + (i + 1)))
        (object.size - (i + 1)) := by
  have bound := exact.size
  have rest : object.size - (i + 1) + 1 = object.size - i := by omega
  have living := holds_alive holds (Nat.sub_pos_of_lt below)
  rw [← rest] at holds
  have popped := holds_popFirst holds fun j (inside : j < object.size - (i + 1)) =>
    (ring_ne (by omega) (by omega)).symm
  simp only [obeys_bind, obeys_indexOf, CircularBufferRefinement.run_indexOf, run_bind, front,
    obeys_destroySlot nontrivial, CircularBufferRefinement.run_destroySlot, nontrivial,
    InplaceStorage.destroySlot, Bool.false_eq_true, if_false, Legal, true_and]
  rw [Nat.zero_add] at popped living
  refine ⟨⟨ring_lt _ _, living⟩, size, holds_congr popped fun j _ => ?_⟩
  rw [Nat.add_assoc, Nat.add_comm 1]

omit nontrivial in
theorem ring_aligned (below : i < config.capacity) : ring config 0 i = i := by
  rw [ring, Nat.zero_add, Nat.mod_eq_of_lt below]

theorem clear_cleared (exact : Exact config (ring config) object) :
    Obeys access (Legal config) (CircularBuffer.clear config) object ∧
      Cleared config (ring config) (run access (CircularBuffer.clear config) object).2 := by
  have loop := obeys_times (fun i (left : Object T) =>
      left.front = object.front ∧ left.size = object.size ∧
        Holds left.slots (fun j => ring config object.front (j + i)) (object.size - i))
    (fun i below left ⟨front, size, holds⟩ => clear_round nontrivial exact below front size holds)
    ⟨rfl, rfl, exact.holds⟩
  obtain ⟨obeys, _, _, holds⟩ := loop
  rw [Nat.sub_self] at holds
  simp only [CircularBuffer.clear, obeys_bind, obeys_size, CircularBufferRefinement.run_size, run_bind,
    obeys_perform, Legal, true_and, and_true]
  exact ⟨obeys, config.positive, rfl, holds_zero holds, fun i below => ring_aligned below⟩

theorem clear_keeps (exact : Exact config (ring config) object) :
    Keeps config (ring config) (CircularBuffer.clear config) object := by
  obtain ⟨obeys, cleared⟩ := clear_cleared nontrivial exact
  exact ⟨obeys, cleared_exact cleared⟩

theorem fill_keeps (value : T) (exact : Exact config (ring config) object) :
    Keeps config (ring config) (CircularBuffer.fill config (.outside value)) object := by
  obtain ⟨obeys, cleared⟩ := clear_cleared nontrivial exact
  have front := @CircularBufferRefinement.clear_front _ config object
  have loop := @obeys_times _ _ _ access (Legal config)
    (fun i (filled : Object T) => filled.front = 0 ∧ Holds filled.slots id i)
    config.capacity (fun i => constructAt config i (.outside value)) ?_
    (run access (CircularBuffer.clear config) object).2 ⟨front, zero_holds cleared.dead⟩
  · obtain ⟨constructs, start, holds⟩ := loop
    simp only [Keeps, CircularBuffer.fill, obeys_bind, run_bind]
    refine ⟨⟨obeys, constructs, trivial, trivial⟩, ?_, Nat.le_refl _, ?_⟩
    · simp only [run_perform, access, start]
      exact config.positive
    · simp only [run_perform, access, start]
      exact holds_congr holds fun i below => (ring_aligned below).symm
  · rintro i below filled ⟨start, holds⟩
    have free : filled.slots i = .dead := holds_dead holds fun j before => Nat.ne_of_lt before
    simp only [constructAt_outside, obeys_perform, run_perform, access]
    exact ⟨⟨below, free, live_ne_dead⟩, start, holds_pushLast holds live_ne_dead⟩

end RingMethods

/-! ## Containers that start at the first slot -/

section Linear
variable {T : Type} {config : Config} {object : Object T}

theorem emplace_keeps (value : T) (exact : Exact config linear object)
    (room : object.size ≠ config.capacity) :
    Keeps config linear (InplaceStack.emplace config (.outside value)) object := by
  have free : object.slots object.size = .dead := holds_dead exact.holds fun i below => Nat.ne_of_lt below
  have inside := Nat.lt_of_le_of_ne exact.size room
  constructor
  · simp [InplaceStack.emplace, InplaceStack.size, Legal, access, room, inside, free]
  · exact ⟨exact.front, inside, holds_pushLast exact.holds live_ne_dead⟩

theorem linear_alive (exact : Exact config linear object) (below : i < object.size) :
    i < config.capacity ∧ object.slots i ≠ .dead :=
  ⟨Nat.lt_of_lt_of_le below exact.size, holds_alive exact.holds below⟩

theorem top_keeps (exact : Exact config linear object) (pending : object.size ≠ 0) :
    Keeps config linear (InplaceStack.top : Method T (Slot T)) object := by
  simp [Keeps, InplaceStack.top, InplaceStack.size, Legal, access, pending]
  exact ⟨linear_alive exact (Nat.sub_one_lt pending), exact⟩

theorem vectorGet_keeps (exact : Exact config linear object) (inside : i < object.size) :
    Keeps config linear (InplaceVector.get i : Method T (Slot T)) object := by
  simp [Keeps, InplaceVector.get, InplaceVector.size, InplaceStack.size, Legal, access, inside]
  exact ⟨linear_alive exact inside, exact⟩

theorem vectorFront_keeps (exact : Exact config linear object) (pending : object.size ≠ 0) :
    Keeps config linear (InplaceVector.front : Method T (Slot T)) object := by
  simp [Keeps, InplaceVector.front, InplaceVector.size, InplaceStack.size, Legal, access, pending,
    config.positive]
  exact ⟨(linear_alive exact (Nat.pos_of_ne_zero pending)).2, exact⟩

theorem linear_taken (exact : Exact config linear object) (below : i < object.size) :
    Exact config linear { object with slots := Function.update object.slots i .moved } where
  front := exact.front
  size := exact.size
  holds := holds_update exact.holds below nofun

variable (nontrivial : config.triviallyDestructible = false)
include nontrivial

theorem pop_keeps (exact : Exact config linear object) (pending : object.size ≠ 0) :
    Keeps config linear (InplaceStack.pop config) object := by
  have holds := exact.holds
  have one : object.size = object.size - 1 + 1 := by omega
  rw [one] at holds
  simp [Keeps, InplaceStack.pop, InplaceStack.size, InplaceStack.destroySlot, nontrivial, Legal, access, pending]
  refine ⟨linear_alive exact (Nat.sub_one_lt pending), exact.front, ?_, ?_⟩
  · exact Nat.le_trans (Nat.sub_le _ _) exact.size
  · exact holds_popLast holds fun i below => Nat.ne_of_lt below

theorem tryPop_keeps (exact : Exact config linear object) :
    Keeps config linear (InplaceStack.tryPop config) object := by
  by_cases pending : object.size = 0
  · simp [Keeps, InplaceStack.tryPop, InplaceStack.empty, InplaceStack.size, Legal, access, pending]
    exact exact
  · have last := Nat.sub_one_lt pending
    have popped := pop_keeps nontrivial (linear_taken exact last) pending
    simp [Keeps, InplaceStack.tryPop, InplaceStack.empty, InplaceStack.size, Legal, access, pending] at popped ⊢
    exact ⟨⟨linear_alive exact last, popped.1⟩, popped.2⟩

/-- A round of the loop destroys the last of the elements that are left. -/
theorem stackClear_cleared (exact : Exact config linear object) :
    Obeys access (Legal config) (InplaceStack.clear config) object ∧
      Cleared config linear (run access (InplaceStack.clear config) object).2 := by
  have loop := @obeys_timesDown _ _ _ access (Legal config)
    (fun i (left : Object T) => left.front < config.capacity ∧ Holds left.slots id i)
    object.size (fun i => InplaceStack.destroySlot config i) ?_ object ⟨exact.front, exact.holds⟩
  · obtain ⟨obeys, front, holds⟩ := loop
    simp only [InplaceStack.clear, InplaceStack.size, obeys_bind, obeys_perform, run_perform, run_bind, access,
      Legal, true_and, and_true]
    exact ⟨obeys, front, rfl, holds_zero holds, fun i _ => rfl⟩
  · rintro i below left ⟨front, holds⟩
    simp only [InplaceStack.destroySlot, nontrivial, Bool.false_eq_true, if_false, obeys_perform,
      run_perform, access, Legal]
    refine ⟨⟨Nat.lt_of_lt_of_le below exact.size, holds_alive holds (Nat.lt_succ_self i)⟩, front, ?_⟩
    exact holds_popLast holds fun j before => Nat.ne_of_lt before

theorem stackClear_keeps (exact : Exact config linear object) :
    Keeps config linear (InplaceStack.clear config) object := by
  obtain ⟨obeys, cleared⟩ := stackClear_cleared nontrivial exact
  exact ⟨obeys, cleared_exact cleared⟩

end Linear

/-! ## Element by element, from one object to another -/

section Elements
variable {N T : Type} {config : Config} {position : Nat → Nat → Nat} {this other : N}
  {get : Nat → Method T (Slot T)} {states start : N → Object T}

/-- Getting the element at a position leaves every element alive. -/
def Gets (config : Config) (position : Nat → Nat → Nat) (get : Nat → Method T (Slot T)) : Prop :=
  ∀ i object, Exact config position object → i < object.size →
    Keeps config position (get i) object ∧ (run access (get i) object).1 ≠ .dead ∧
      (run access (get i) object).2.size = object.size

/-- The loops of the containers that construct from another object. -/
def elementwise (get : Nat → Method T (Slot T)) (this other : N) : Code N T Unit := do
  times (← (InplaceStorage.perform .size).on other) fun i => do
    let element ← (get i).on other
    (do InplaceStorage.perform (.construct i element)
        InplaceStorage.perform (.setSize ((← InplaceStorage.perform .size) + 1)) : Method T Unit).on this

/-- After `i` rounds: the first slots of the destination, and the source with all elements. -/
structure Building (config : Config) (position : Nat → Nat → Nat) (this other : N)
    (start : N → Object T) (i : Nat) (states : N → Object T) : Prop where
  front : (states this).front = (start this).front
  size : (states this).size = i
  built : Holds (states this).slots id i
  source : Exact config position (states other)
  count : (states other).size = (start other).size
  apart : ∀ name, name ≠ this → name ≠ other → states name = start name

variable [DecidableEq N]

theorem building_round (different : this ≠ other) (gets : Gets config position get)
    (bound : (start other).size ≤ config.capacity) (below : i < (start other).size)
    (building : Building config position this other start i states) :
    let round : Code N T Unit := do
      let element ← (get i).on other
      (do InplaceStorage.perform (.construct i element)
          InplaceStorage.perform (.setSize ((← InplaceStorage.perform .size) + 1)) : Method T Unit).on this
    Obeys (family access) (At (Legal config)) round states ∧
      Building config position this other start (i + 1) (run (family access) round states).2 := by
  obtain ⟨⟨obeys, exact⟩, living, size⟩ := gets i _ building.source (building.count ▸ below)
  have free : (states this).slots i = .dead :=
    holds_dead building.built fun j before => Nat.ne_of_lt before
  simp only [obeys_bind, obeys_at, run_bind, run_on, Function.update_of_ne different, obeys_perform,
    run_perform, access, Legal, and_true]
  refine ⟨⟨obeys, ?_⟩, ?_⟩
  · exact ⟨Nat.lt_of_lt_of_le below bound, free, living⟩
  · refine ⟨?_, ?_, ?_, ?_, ?_, fun name notThis notOther => ?_⟩
    · rw [Function.update_self]
      exact building.front
    · rw [Function.update_self]
      exact congrArg (· + 1) building.size
    · rw [Function.update_self]
      exact holds_pushLast building.built living
    · rw [Function.update_of_ne different.symm, Function.update_self]
      exact exact
    · rw [Function.update_of_ne different.symm, Function.update_self, size]
      exact building.count
    · rw [Function.update_of_ne notThis, Function.update_of_ne notOther]
      exact building.apart name notThis notOther

/-- The destination has an element at every position of the source. -/
theorem elementwise_keeps (different : this ≠ other) (gets : Gets config position get)
    (source : Exact config position (start other)) (cleared : Cleared config position (start this)) :
    let after := (run (family access) (elementwise get this other) start).2
    Obeys (family access) (At (Legal config)) (elementwise get this other) start ∧
      Exact config position (after this) ∧ Exact config position (after other) ∧
      ∀ name, name ≠ this → name ≠ other → after name = start name := by
  have begins : Building config position this other start 0 start :=
    ⟨rfl, cleared.size, zero_holds cleared.dead, source, rfl, fun _ _ _ => rfl⟩
  obtain ⟨obeys, building⟩ := obeys_times (Building config position this other start)
    (fun i below states => building_round different gets source.size below) begins
  simp only [elementwise, obeys_bind, obeys_at, obeys_perform, run_bind, run_on, run_perform, access,
    Function.update_eq_self, Legal, true_and]
  refine ⟨obeys, ⟨?_, ?_, ?_⟩, building.source, building.apart⟩
  · rw [building.front]
    exact cleared.front
  · rw [building.size]
    exact source.size
  · rw [building.front, building.size]
    refine holds_congr building.built fun i below => (cleared.aligned i ?_).symm
    exact Nat.lt_of_lt_of_le below source.size

end Elements
end Emblib.InplaceLifetimes

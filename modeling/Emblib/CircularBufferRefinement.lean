import Mathlib.Data.List.DropRight
import Emblib.Library.Machine
import Emblib.Library.Ring
import Emblib.CircularBuffer

/-! `circular_buffer` is a bounded deque that overwrites at its other end. The contents of
a buffer are a window of its ring; each member function moves one end of the window, from
whatever position the earlier ones have left it at. -/
namespace Emblib.CircularBufferRefinement
open Programs Machines Rings CircularBuffer
open Program (times)
open InplaceStorage hiding destroySlot

/-! ## The deque -/

/-- On a full deque the first element makes room. -/
def Deque.pushBack (bound : Nat) (value : T) (elements : List T) : List T :=
  if elements.length = bound then elements.tail ++ [value] else elements ++ [value]

/-- On a full deque the last element makes room. -/
def Deque.pushFront (bound : Nat) (value : T) (elements : List T) : List T :=
  if elements.length = bound then value :: elements.dropLast else value :: elements

/-- The last elements of a sequence that grows at its back. -/
theorem Deque.pushBack_rtake (positive : 0 < bound) (value : T) (elements : List T) :
    Deque.pushBack bound value (elements.rtake bound) = (elements ++ [value]).rtake bound := by
  obtain ⟨rest, rfl⟩ := Nat.exists_eq_succ_of_ne_zero (Nat.pos_iff_ne_zero.mp positive)
  rw [Nat.succ_eq_add_one, List.rtake_concat_succ, Deque.pushBack]
  unfold List.rtake
  rw [List.length_drop]
  split
  case isTrue full =>
    have next : elements.length - (rest + 1) + 1 = elements.length - rest := by omega
    rw [List.tail_drop, next]
  case isFalse room =>
    have all : elements.length - (rest + 1) = elements.length - rest := by omega
    rw [all]

/-! ## What a buffer holds -/

/-- `[buf[0], .., buf[size - 1]]`. -/
def contents (config : Config) (buffer : Object T) : List (Slot T) :=
  window config.capacity buffer.slots buffer.front buffer.size

structure Represents (config : Config) (buffer : Object T) (elements : List T) : Prop where
  front : buffer.front < config.capacity
  size : buffer.size ≤ config.capacity
  contents : contents config buffer = elements.map .live

section Represents
variable {T : Type} {config : Config} {buffer : Object T} {elements : List T} {value : T}
  {slots : Nat → Slot T}

theorem represents_length (represents : Represents config buffer elements) :
    buffer.size = elements.length := by
  have length := congrArg List.length represents.contents
  rwa [contents, window_length, List.length_map] at length

theorem represents_nil (front : buffer.front = 0) (size : buffer.size = 0) :
    Represents config buffer [] where
  front := by rw [front]; exact config.positive
  size := by rw [size]; exact Nat.zero_le _
  contents := by rw [contents, size]; rfl

/-- The element at a position is the one in its slot. -/
theorem represents_get (represents : Represents config buffer elements) (inside : i < buffer.size) :
    elements[i]?.map .live = some (buffer.slots ((buffer.front + i) % config.capacity)) := by
  rw [← List.getElem?_map, ← represents.contents]
  exact window_getElem? inside

theorem represents_front (represents : Represents config buffer elements) (pending : 0 < buffer.size) :
    elements.head?.map .live = some (buffer.slots buffer.front) := by
  have first := represents_get represents pending
  rwa [Nat.add_zero, Nat.mod_eq_of_lt represents.front, ← List.head?_eq_getElem?] at first

theorem represents_back (represents : Represents config buffer elements) (pending : 0 < buffer.size) :
    elements.getLast?.map .live =
      some (buffer.slots ((buffer.front + (buffer.size - 1)) % config.capacity)) := by
  have last := represents_get represents (Nat.sub_one_lt (Nat.pos_iff_ne_zero.mp pending))
  rwa [represents_length represents, ← List.getLast?_eq_getElem?, ← represents_length represents]
    at last

/-! Each end of the window, in or out. Which slots have changed matters only in the window. -/

theorem represents_pushBack (value : T) (represents : Represents config buffer elements)
    (room : buffer.size < config.capacity) :
    Represents config
      { buffer with
        slots := Function.update buffer.slots ((buffer.front + buffer.size) % config.capacity) (.live value)
        size := buffer.size + 1 }
      (elements ++ [value]) where
  front := represents.front
  size := room
  contents := by
    rw [List.map_append, ← represents.contents]
    exact window_pushBack room

theorem represents_overwriteBack (value : T) (represents : Represents config buffer elements)
    (full : buffer.size = config.capacity) :
    Represents config
      { buffer with
        slots := Function.update buffer.slots ((buffer.front + buffer.size) % config.capacity) (.live value)
        front := (buffer.front + 1) % config.capacity }
      (elements.tail ++ [value]) where
  front := Nat.mod_lt _ config.positive
  size := represents.size
  contents := by
    rw [List.map_append, List.map_tail, ← represents.contents]
    simp only [contents, full]
    rw [window_position (Nat.mod_mod _ _)]
    exact window_overwriteBack config.positive

theorem represents_pushFront (value : T) (represents : Represents config buffer elements)
    (room : buffer.size < config.capacity) :
    Represents config
      { buffer with
        slots := Function.update buffer.slots
          ((buffer.front + config.capacity - 1) % config.capacity) (.live value)
        size := buffer.size + 1
        front := (buffer.front + config.capacity - 1) % config.capacity }
      (value :: elements) where
  front := Nat.mod_lt _ config.positive
  size := room
  contents := by
    rw [List.map_cons, ← represents.contents]
    exact window_pushFront room

theorem represents_overwriteFront (value : T) (represents : Represents config buffer elements)
    (full : buffer.size = config.capacity) :
    Represents config
      { buffer with
        slots := Function.update buffer.slots
          ((buffer.front + config.capacity - 1) % config.capacity) (.live value)
        front := (buffer.front + config.capacity - 1) % config.capacity }
      (value :: elements.dropLast) where
  front := Nat.mod_lt _ config.positive
  size := represents.size
  contents := by
    rw [List.map_cons, List.map_dropLast, ← represents.contents]
    simp only [contents, full]
    exact window_overwriteFront config.positive

theorem represents_popFront (represents : Represents config buffer elements)
    (pending : 0 < buffer.size)
    (same : ∀ k, k ≠ buffer.front → slots k = buffer.slots k) :
    Represents config
      { slots, front := (buffer.front + 1) % config.capacity, size := buffer.size - 1 }
      elements.tail where
  front := Nat.mod_lt _ config.positive
  size := Nat.le_trans (Nat.sub_le _ _) represents.size
  contents := by
    have bound := represents.size
    have one : buffer.size - 1 + 1 = buffer.size := Nat.sub_add_cancel pending
    rw [List.map_tail, ← represents.contents]
    simp only [contents]
    rw [window_position (Nat.mod_mod _ _), ← one, ← window_tail, Nat.add_sub_cancel]
    refine window_congr fun i below => same _ ?_
    have other : (buffer.front + 1 + i) % config.capacity ≠ buffer.front % config.capacity :=
      Counters.slot_ne (by omega) (by omega) (by omega) (Nat.le_refl buffer.front) (by omega)
    rwa [Nat.mod_eq_of_lt represents.front] at other

theorem represents_popBack (represents : Represents config buffer elements)
    (pending : 0 < buffer.size)
    (same : ∀ k, k ≠ (buffer.front + (buffer.size - 1)) % config.capacity → slots k = buffer.slots k) :
    Represents config { buffer with slots, size := buffer.size - 1 } elements.dropLast where
  front := represents.front
  size := Nat.le_trans (Nat.sub_le _ _) represents.size
  contents := by
    have bound := represents.size
    have one : buffer.size - 1 + 1 = buffer.size := Nat.sub_add_cancel pending
    rw [List.map_dropLast, ← represents.contents]
    simp only [contents]
    rw [← one, ← window_dropLast, Nat.add_sub_cancel]
    refine window_congr fun i below => same _ ?_
    exact Counters.slot_ne (by omega) (Nat.le_add_right _ _) (by omega) (Nat.le_add_right _ _) (by omega)

end Represents

/-! ## What the member functions do -/

section Methods
variable {T : Type} {config : Config} {buffer : Object T} {elements : List T} {value : T}

@[simp] theorem run_size : run access size buffer = (buffer.size, buffer) := rfl

@[simp] theorem run_empty : run access empty buffer = (buffer.size == 0, buffer) := rfl

@[simp] theorem run_full : run access (full config) buffer = (buffer.size == config.capacity, buffer) :=
  rfl

@[simp] theorem run_indexOf (offset : Nat) : run access (indexOf config offset) buffer =
    ((buffer.front + offset) % config.capacity, buffer) := rfl

@[simp] theorem run_destroySlot (index : Nat) : run access (destroySlot config index) buffer =
    ((), { buffer with
      slots := InplaceStorage.destroySlot config.triviallyDestructible buffer.slots index }) := by
  unfold destroySlot InplaceStorage.destroySlot
  split <;> rfl

/-- Whatever the slots are then. -/
theorem clear_represents : Represents config (run access (clear config) buffer).2 [] := by
  simp only [clear, run_bind]
  exact represents_nil rfl rfl

theorem clear_front : (run access (clear config) buffer).2.front = 0 := by
  simp only [clear, run_bind]
  rfl

theorem clear_size : (run access (clear config) buffer).2.size = 0 := by
  simp only [clear, run_bind]
  rfl

theorem run_pushBack_room (room : buffer.size ≠ config.capacity) :
    run access (pushBack config (.outside value)) buffer =
      ((), { buffer with
        slots := Function.update buffer.slots ((buffer.front + buffer.size) % config.capacity) (.live value)
        size := buffer.size + 1 }) := by
  simp [pushBack, emplaceBack, writeBackWith, access, room]

theorem run_pushBack_full (full : buffer.size = config.capacity) :
    run access (pushBack config (.outside value)) buffer =
      ((), { buffer with
        slots := Function.update buffer.slots ((buffer.front + buffer.size) % config.capacity) (.live value)
        front := (buffer.front + 1) % config.capacity }) := by
  simp [pushBack, emplaceBack, writeBackWith, access, full, update_destroySlot]

theorem pushBack_represents (value : T) (represents : Represents config buffer elements) :
    Represents config (run access (pushBack config (.outside value)) buffer).2
      (Deque.pushBack config.capacity value elements) := by
  unfold Deque.pushBack
  rw [← represents_length represents]
  by_cases full : buffer.size = config.capacity
  · rw [if_pos full, run_pushBack_full full]
    exact represents_overwriteBack value represents full
  · rw [if_neg full, run_pushBack_room full]
    exact represents_pushBack value represents (Nat.lt_of_le_of_ne represents.size full)

theorem run_pushFront_room (room : buffer.size ≠ config.capacity) :
    run access (pushFront config (.outside value)) buffer =
      ((), { buffer with
        slots := Function.update buffer.slots
          ((buffer.front + config.capacity - 1) % config.capacity) (.live value)
        size := buffer.size + 1
        front := (buffer.front + config.capacity - 1) % config.capacity }) := by
  simp [pushFront, emplaceFront, writeFrontWith, access, room]

theorem run_pushFront_full (full : buffer.size = config.capacity) :
    run access (pushFront config (.outside value)) buffer =
      ((), { buffer with
        slots := Function.update buffer.slots
          ((buffer.front + config.capacity - 1) % config.capacity) (.live value)
        front := (buffer.front + config.capacity - 1) % config.capacity }) := by
  simp [pushFront, emplaceFront, writeFrontWith, access, full, update_destroySlot]

theorem pushFront_represents (value : T) (represents : Represents config buffer elements) :
    Represents config (run access (pushFront config (.outside value)) buffer).2
      (Deque.pushFront config.capacity value elements) := by
  unfold Deque.pushFront
  rw [← represents_length represents]
  by_cases full : buffer.size = config.capacity
  · rw [if_pos full, run_pushFront_full full]
    exact represents_overwriteFront value represents full
  · rw [if_neg full, run_pushFront_room full]
    exact represents_pushFront value represents (Nat.lt_of_le_of_ne represents.size full)

@[simp] theorem run_popFront : run access (popFront config) buffer =
    ((), { front := (buffer.front + 1) % config.capacity
           size := buffer.size - 1
           slots := InplaceStorage.destroySlot config.triviallyDestructible buffer.slots
             buffer.front }) := by
  simp [popFront, access]

@[simp] theorem run_popBack : run access (popBack config) buffer =
    ((), { buffer with
      size := buffer.size - 1
      slots := InplaceStorage.destroySlot config.triviallyDestructible buffer.slots
        ((buffer.front + (buffer.size - 1)) % config.capacity) }) := by
  simp [popBack, access]

theorem popFront_represents (represents : Represents config buffer elements)
    (pending : 0 < buffer.size) :
    Represents config (run access (popFront config) buffer).2 elements.tail := by
  rw [run_popFront]
  exact represents_popFront represents pending fun k different => destroySlot_of_ne different

theorem popBack_represents (represents : Represents config buffer elements)
    (pending : 0 < buffer.size) :
    Represents config (run access (popBack config) buffer).2 elements.dropLast := by
  rw [run_popBack]
  exact represents_popBack represents pending fun k different => destroySlot_of_ne different

theorem tryPopFront_represents (represents : Represents config buffer elements) :
    (run access (tryPopFront config) buffer).1 = elements.head?.map .live ∧
      Represents config (run access (tryPopFront config) buffer).2 elements.tail := by
  have length := represents_length represents
  by_cases none : buffer.size = 0
  · obtain rfl : elements = [] := List.eq_nil_of_length_eq_zero (by omega)
    simp only [tryPopFront, run_bind, run_empty, none, beq_self_eq_true, if_true]
    exact ⟨rfl, represents⟩
  · have pending := Nat.pos_iff_ne_zero.mpr none
    simp only [tryPopFront, run_bind, run_empty, beq_iff_eq, none, if_false, run_perform, access,
      run_popFront, Program.pure_eq, run_pure]
    refine ⟨(represents_front represents pending).symm, ?_⟩
    refine represents_popFront represents pending fun k different => ?_
    rw [destroySlot_of_ne different, Function.update_of_ne different]

theorem tryPopBack_represents (represents : Represents config buffer elements) :
    (run access (tryPopBack config) buffer).1 = elements.getLast?.map .live ∧
      Represents config (run access (tryPopBack config) buffer).2 elements.dropLast := by
  have length := represents_length represents
  by_cases none : buffer.size = 0
  · obtain rfl : elements = [] := List.eq_nil_of_length_eq_zero (by omega)
    simp only [tryPopBack, run_bind, run_empty, none, beq_self_eq_true, if_true]
    exact ⟨rfl, represents⟩
  · have pending := Nat.pos_iff_ne_zero.mpr none
    simp only [tryPopBack, run_bind, run_empty, beq_iff_eq, none, if_false, run_size, run_indexOf,
      run_perform, access, run_popBack, Program.pure_eq, run_pure]
    refine ⟨(represents_back represents pending).symm, ?_⟩
    refine represents_popBack represents pending fun k different => ?_
    rw [destroySlot_of_ne different, Function.update_of_ne different]

theorem fill_loop (value : T) (front : buffer.front = 0) (count : Nat) :
    let filled := (run access
      (times count fun i => constructAt config i (.outside value)) buffer).2
    filled.front = 0 ∧ ∀ k, k < count → filled.slots k = .live value := by
  refine run_times (fun i (object : Object T) =>
    object.front = 0 ∧ ∀ k, k < i → object.slots k = .live value) ?_ ⟨front, by simp⟩
  rintro i _ object ⟨start, before⟩
  simp only [constructAt_outside, run_perform, access]
  refine ⟨start, fun k below => ?_⟩
  by_cases last : k = i
  · rw [last, Function.update_self]
  · rw [Function.update_of_ne last]
    exact before k (by omega)

theorem fill_represents (value : T) : Represents config (run access (fill config (.outside value)) buffer).2
    (List.replicate config.capacity value) := by
  obtain ⟨front, filled⟩ := fill_loop value (@clear_front _ config buffer) config.capacity
  simp only [fill, run_bind, run_perform, access]
  refine ⟨?_, Nat.le_refl _, ?_⟩
  · rw [front]
    exact config.positive
  · rw [List.map_replicate]
    refine window_replicate fun i below => ?_
    simp only [front, Nat.zero_add, Nat.mod_eq_of_lt below]
    exact filled i below

end Methods

/-! ## Operations -/

inductive Operation (T : Type) where
  | pushBack (value : T)
  | pushFront (value : T)
  | emplaceBack (value : T)
  | emplaceFront (value : T)
  | tryPushBack (value : T)
  | tryPushFront (value : T)
  | popFront
  | popBack
  | tryPopFront
  | tryPopBack
  | fill (value : T)
  | clear
  | front
  | back
  | get (i : Nat)
  | size
  | capacity
  | empty
  | full

inductive Answer (A : Type) where
  | done
  | flag (value : Bool)
  | count (value : Nat)
  | element (found : Option A)
  deriving DecidableEq

def Answer.map (f : A → B) : Answer A → Answer B
  | .done => .done
  | .flag value => .flag value
  | .count value => .count value
  | .element found => .element (found.map f)

/-- The operation on a buffer, with arguments from outside of it. -/
def perform (config : Config) : Operation T → Method T (Answer (Slot T))
  | .pushBack value => do pushBack config (.outside value); return .done
  | .pushFront value => do pushFront config (.outside value); return .done
  | .emplaceBack value => do emplaceBack config (.outside value); return .done
  | .emplaceFront value => do emplaceFront config (.outside value); return .done
  | .tryPushBack value => do return .flag (← tryPushBack config (.outside value))
  | .tryPushFront value => do return .flag (← tryPushFront config (.outside value))
  | .popFront => do popFront config; return .done
  | .popBack => do popBack config; return .done
  | .tryPopFront => do return .element (← tryPopFront config)
  | .tryPopBack => do return .element (← tryPopBack config)
  | .fill value => do fill config (.outside value); return .done
  | .clear => do clear config; return .done
  | .front => do return .element (some (← front))
  | .back => do return .element (some (← back config))
  | .get i => do return .element (some (← get config i))
  | .size => do return .count (← size)
  | .capacity => do return .count (← capacity config)
  | .empty => do return .flag (← empty)
  | .full => do return .flag (← full config)

/-- The operation on the deque. -/
def Deque.update (bound : Nat) : Operation T → List T → Answer T × List T
  | .pushBack value, elements => (.done, Deque.pushBack bound value elements)
  | .pushFront value, elements => (.done, Deque.pushFront bound value elements)
  | .emplaceBack value, elements => (.done, Deque.pushBack bound value elements)
  | .emplaceFront value, elements => (.done, Deque.pushFront bound value elements)
  | .tryPushBack value, elements =>
    if elements.length = bound then (.flag false, elements)
    else (.flag true, elements ++ [value])
  | .tryPushFront value, elements =>
    if elements.length = bound then (.flag false, elements)
    else (.flag true, value :: elements)
  | .popFront, elements => (.done, elements.tail)
  | .popBack, elements => (.done, elements.dropLast)
  | .tryPopFront, elements => (.element elements.head?, elements.tail)
  | .tryPopBack, elements => (.element elements.getLast?, elements.dropLast)
  | .fill value, _ => (.done, List.replicate bound value)
  | .clear, _ => (.done, [])
  | .front, elements => (.element elements.head?, elements)
  | .back, elements => (.element elements.getLast?, elements)
  | .get i, elements => (.element elements[i]?, elements)
  | .size, elements => (.count elements.length, elements)
  | .capacity, elements => (.count bound, elements)
  | .empty, elements => (.flag elements.isEmpty, elements)
  | .full, elements => (.flag (elements.length == bound), elements)

/-- The preconditions, the `ASSUME`s of the source. -/
def Operation.Allowed : Operation T → List T → Prop
  | .popFront, elements => elements ≠ []
  | .popBack, elements => elements ≠ []
  | .front, elements => elements ≠ []
  | .back, elements => elements ≠ []
  | .get i, elements => i < elements.length
  | _, _ => True

section Operations
variable {T : Type} {config : Config} {buffer : Object T} {elements : List T}

theorem represents_pending (represents : Represents config buffer elements) (some : elements ≠ []) :
    0 < buffer.size := by
  rw [represents_length represents]
  exact List.length_pos_iff.mpr some

theorem done_refines {method : Method T Unit}
    (after : Represents config (run access method buffer).2 elements) :
    (run access (do method; return (.done : Answer (Slot T))) buffer).1 = .done ∧
      Represents config (run access (do method; return (.done : Answer (Slot T))) buffer).2 elements := by
  rw [run_bind]
  exact ⟨rfl, after⟩

/-- One operation on a buffer is one operation on the deque. -/
theorem perform_refines (op : Operation T) (represents : Represents config buffer elements)
    (allowed : op.Allowed elements) :
    (run access (perform config op) buffer).1 =
        (Deque.update config.capacity op elements).1.map .live ∧
      Represents config (run access (perform config op) buffer).2
        (Deque.update config.capacity op elements).2 := by
  have length := represents_length represents
  cases op with
  | pushBack value => exact done_refines (pushBack_represents value represents)
  | pushFront value => exact done_refines (pushFront_represents value represents)
  | emplaceBack value => exact done_refines (pushBack_represents value represents)
  | emplaceFront value => exact done_refines (pushFront_represents value represents)
  | tryPushBack value =>
    have pushed := pushBack_represents value represents
    simp only [perform, tryPushBack, run_bind, run_full, Deque.update, Deque.pushBack, length] at pushed ⊢
    by_cases full : elements.length = config.capacity
    · simp only [full, beq_self_eq_true, if_true]
      exact ⟨rfl, represents⟩
    · simp only [full, beq_iff_eq, if_false, run_bind] at pushed ⊢
      exact ⟨rfl, pushed⟩
  | tryPushFront value =>
    have pushed := pushFront_represents value represents
    simp only [perform, tryPushFront, run_bind, run_full, Deque.update, Deque.pushFront, length] at pushed ⊢
    by_cases full : elements.length = config.capacity
    · simp only [full, beq_self_eq_true, if_true]
      exact ⟨rfl, represents⟩
    · simp only [full, beq_iff_eq, if_false, run_bind] at pushed ⊢
      exact ⟨rfl, pushed⟩
  | popFront => exact done_refines (popFront_represents represents (represents_pending represents allowed))
  | popBack => exact done_refines (popBack_represents represents (represents_pending represents allowed))
  | tryPopFront =>
    obtain ⟨answer, after⟩ := tryPopFront_represents represents
    simp only [perform, run_bind, answer]
    exact ⟨rfl, after⟩
  | tryPopBack =>
    obtain ⟨answer, after⟩ := tryPopBack_represents represents
    simp only [perform, run_bind, answer]
    exact ⟨rfl, after⟩
  | fill value => exact done_refines (fill_represents value)
  | clear => exact done_refines clear_represents
  | front =>
    have first := represents_front represents (represents_pending represents allowed)
    exact ⟨congrArg Answer.element first.symm, represents⟩
  | back =>
    have last := represents_back represents (represents_pending represents allowed)
    exact ⟨congrArg Answer.element last.symm, represents⟩
  | get i =>
    have inside : i < elements.length := allowed
    have here := represents_get represents (length ▸ inside)
    exact ⟨congrArg Answer.element here.symm, represents⟩
  | size => exact ⟨congrArg Answer.count length, represents⟩
  | capacity => exact ⟨rfl, represents⟩
  | empty =>
    have same : (buffer.size == 0) = elements.isEmpty := by
      rw [length]
      cases elements <;> rfl
    exact ⟨congrArg Answer.flag same, represents⟩
  | full => exact ⟨congrArg (fun count => Answer.flag (count == config.capacity)) length, represents⟩

end Operations

end Emblib.CircularBufferRefinement

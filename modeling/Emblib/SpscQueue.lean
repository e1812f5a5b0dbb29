import Emblib.Library.Run
import Emblib.Library.Counter
import Emblib.InplaceStorage

/-! The queue `isr_spsc_inplace_queue`, with the steps of its producer and its consumer in
any order. Each atomic load or store is a step, and each use of a slot is two, so that
the other side can run while it lasts. The indices are free-running counters of `w` bits
and the capacity is `2 ^ c`. The index type is at least as wide as `int`, as that of
`atomic_unsigned_lock_free` is, so that the difference of two indices is not promoted and
wraps as well. -/
namespace Emblib.SpscQueue
open Runs Counters InplaceStorage

/-- Where the producer is in `try_emplace`; `b` is its copy of `back_`. -/
inductive Producer (w : Nat) (T : Type) where
  | idle
  | loaded (value : T) (b : BitVec w)
  | ready (value : T) (b : BitVec w)
  | constructing (value : T) (b : BitVec w)
  | constructed (value : T) (b : BitVec w)

/-- Where the consumer is in `try_pop`, `front` or `clear`; `f` and `b` are its copies of
the indices. The contents destroyed by `clear` so far are not kept by the code. -/
inductive Consumer (w : Nat) (T : Type) where
  | idle
  | popLoaded (f : BitVec w)
  | taking (f : BitVec w)
  | taken (f : BitVec w) (result : Slot T)
  | destroying (f : BitVec w) (result : Slot T)
  | destroyed (f : BitVec w) (result : Slot T)
  | peekLoaded (f : BitVec w)
  | peeking (f : BitVec w)
  | clearLoaded (b : BitVec w)
  | clearing (b f : BitVec w) (discarded : List (Slot T))
  | clearDestroying (b f : BitVec w) (discarded : List (Slot T))

structure State (w : Nat) (T : Type) where
  front : BitVec w
  back : BitVec w
  slots : Nat → Slot T
  producer : Producer w T
  consumer : Consumer w T

def initial : State w T where
  front := 0#w
  back := 0#w
  slots := fun _ => .dead
  producer := .idle
  consumer := .idle

/-- `index_of`; `size_t` holds every value of the index type. -/
def indexOf (c : Nat) (index : BitVec w) : Nat := index.toNat &&& (2 ^ c - 1)

inductive Event (T : Type) where
  | pushBegin (value : T)
  | pushFull
  | pushCheck
  | constructBegin
  | constructEnd
  | pushReturn (value : T)
  | popBegin
  | popEmpty
  | takeBegin
  | takeEnd
  | destroyBegin
  | destroyEnd
  | popReturn (result : Slot T)
  | peekBegin
  | peekEmpty
  | peekCheck
  | peekReturn (result : Slot T)
  | clearBegin
  | clearLoad
  | clearDestroyBegin
  | clearDestroyEnd
  | clearReturn (discarded : List (Slot T))

inductive Step {w : Nat} {T : Type} (c : Nat) (trivial : Bool) :
    State w T → Event T → State w T → Prop where
  | pushBegin (idle : state.producer = .idle) :
      Step c trivial state (.pushBegin value) { state with producer := .loaded value state.back }
  | pushFull (loaded : state.producer = .loaded value b) (full : (b - state.front).toNat = 2 ^ c) :
      Step c trivial state .pushFull { state with producer := .idle }
  | pushCheck (loaded : state.producer = .loaded value b) (room : (b - state.front).toNat ≠ 2 ^ c) :
      Step c trivial state .pushCheck { state with producer := .ready value b }
  | constructBegin (ready : state.producer = .ready value b) :
      Step c trivial state .constructBegin { state with producer := .constructing value b }
  | constructEnd (constructing : state.producer = .constructing value b) :
      Step c trivial state .constructEnd
        { state with
          slots := Function.update state.slots (indexOf c b) (.live value)
          producer := .constructed value b }
  | pushReturn (constructed : state.producer = .constructed value b) :
      Step c trivial state (.pushReturn value) { state with back := b + 1#w, producer := .idle }
  | popBegin (idle : state.consumer = .idle) :
      Step c trivial state .popBegin { state with consumer := .popLoaded state.front }
  | popEmpty (loaded : state.consumer = .popLoaded f) (empty : f = state.back) :
      Step c trivial state .popEmpty { state with consumer := .idle }
  | takeBegin (loaded : state.consumer = .popLoaded f) (pending : f ≠ state.back) :
      Step c trivial state .takeBegin { state with consumer := .taking f }
  | takeEnd (taking : state.consumer = .taking f) :
      Step c trivial state .takeEnd
        { state with
          slots := Function.update state.slots (indexOf c f) .moved
          consumer := .taken f (state.slots (indexOf c f)) }
  | destroyBegin (taken : state.consumer = .taken f result) :
      Step c trivial state .destroyBegin { state with consumer := .destroying f result }
  | destroyEnd (destroying : state.consumer = .destroying f result) :
      Step c trivial state .destroyEnd
        { state with
          slots := destroySlot trivial state.slots (indexOf c f)
          consumer := .destroyed f result }
  | popReturn (destroyed : state.consumer = .destroyed f result) :
      Step c trivial state (.popReturn result) { state with front := f + 1#w, consumer := .idle }
  | peekBegin (idle : state.consumer = .idle) :
      Step c trivial state .peekBegin { state with consumer := .peekLoaded state.front }
  | peekEmpty (loaded : state.consumer = .peekLoaded f) (empty : f = state.back) :
      Step c trivial state .peekEmpty { state with consumer := .idle }
  | peekCheck (loaded : state.consumer = .peekLoaded f) (pending : f ≠ state.back) :
      Step c trivial state .peekCheck { state with consumer := .peeking f }
  | peekReturn (peeking : state.consumer = .peeking f) :
      Step c trivial state (.peekReturn (state.slots (indexOf c f))) { state with consumer := .idle }
  | clearBegin (idle : state.consumer = .idle) :
      Step c trivial state .clearBegin { state with consumer := .clearLoaded state.back }
  | clearLoad (loaded : state.consumer = .clearLoaded b) :
      Step c trivial state .clearLoad { state with consumer := .clearing b state.front [] }
  | clearDestroyBegin (clearing : state.consumer = .clearing b f discarded) (more : f ≠ b) :
      Step c trivial state .clearDestroyBegin { state with consumer := .clearDestroying b f discarded }
  | clearDestroyEnd (destroying : state.consumer = .clearDestroying b f discarded) :
      Step c trivial state .clearDestroyEnd
        { state with
          slots := destroySlot trivial state.slots (indexOf c f)
          consumer := .clearing b (f + 1#w) (discarded ++ [state.slots (indexOf c f)]) }
  | clearReturn (clearing : state.consumer = .clearing b f discarded) (done : f = b) :
      Step c trivial state (.clearReturn discarded) { state with front := b, consumer := .idle }

/-! ## What is pushed and removed -/

/-- The value of a push that returns true. -/
def Event.pushed : Event T → List T
  | .pushReturn value => [value]
  | _ => []

/-- What a pop returns or a clear discards. -/
def Event.removed : Event T → List (Slot T)
  | .popReturn result => [result]
  | .clearReturn discarded => discarded
  | _ => []

def pushed (trace : List (Event T)) : List T := trace.flatMap Event.pushed

def removed (trace : List (Event T)) : List (Slot T) := trace.flatMap Event.removed

theorem pushed_append (first second : List (Event T)) :
    pushed (first ++ second) = pushed first ++ pushed second := List.flatMap_append

theorem removed_append (first second : List (Event T)) :
    removed (first ++ second) = removed first ++ removed second := List.flatMap_append

theorem pushed_snoc (trace : List (Event T)) (event : Event T) :
    pushed (trace ++ [event]) = pushed trace ++ event.pushed := by
  rw [pushed_append, pushed, pushed, List.flatMap_singleton]

theorem removed_snoc (trace : List (Event T)) (event : Event T) :
    removed (trace ++ [event]) = removed trace ++ event.removed := by
  rw [removed_append, removed, removed, List.flatMap_singleton]

/-! ## Uses of slots -/

/-- The index of the slot that the producer uses. -/
def Producer.uses : Producer w T → Option (BitVec w)
  | .ready _ b => some b
  | .constructing _ b => some b
  | .constructed _ b => some b
  | _ => none

/-- The index of the slot that the consumer uses. -/
def Consumer.uses : Consumer w T → Option (BitVec w)
  | .taking f => some f
  | .taken f _ => some f
  | .destroying f _ => some f
  | .destroyed f _ => some f
  | .peeking f => some f
  | .clearDestroying _ f _ => some f
  | _ => none

/-! ## The ring of slots -/

/-- A slot in which an object may be constructed. -/
def Free (trivial : Bool) (slot : Slot T) : Prop := trivial = false → slot = .dead

/-- The slots of a ring of `size` while the elements from `low` on are in the queue. Of
these the first `taken` may have been moved from, and the first `gone` of them are
destroyed; behind the elements, `built` slots have been constructed. -/
structure Ring (size : Nat) (trivial : Bool) (elements : List T) (low taken gone built : Nat)
    (slots : Nat → Slot T) : Prop where
  live : ∀ k value, low + taken ≤ k → elements[k]? = some value → slots (k % size) = .live value
  gone : ∀ k, low ≤ k → k < low + gone → Free trivial (slots (k % size))
  free : ∀ k, elements.length + built ≤ k → k < low + size → Free trivial (slots (k % size))

section Ring
variable {T : Type} {size : Nat} {trivial : Bool} {elements : List T} {low taken gone : Nat}
  {slots : Nat → Slot T} {value : T}

theorem update_other {k j : Nat} (different : k ≠ j) (lowK : low ≤ k) (highK : k < low + size)
    (lowJ : low ≤ j) (highJ : j < low + size) (slot : Slot T) :
    Function.update slots (j % size) slot (k % size) = slots (k % size) :=
  Function.update_of_ne (slot_ne different lowK highK lowJ highJ) _ _

theorem destroySlot_other {k j : Nat} (different : k ≠ j) (lowK : low ≤ k) (highK : k < low + size)
    (lowJ : low ≤ j) (highJ : j < low + size) :
    destroySlot trivial slots (j % size) (k % size) = slots (k % size) :=
  destroySlot_of_ne (slot_ne different lowK highK lowJ highJ)

theorem destroySlot_free (index : Nat) : Free trivial (destroySlot trivial slots index index) := by
  intro lifetime
  simp [destroySlot, lifetime]

theorem ring_start : Ring size trivial ([] : List T) 0 0 0 0 fun _ => .dead where
  live := by simp
  gone := fun _ _ _ _ => rfl
  free := fun _ _ _ _ => rfl

/-- An element is constructed in the slot behind the others. -/
theorem ring_construct (ring : Ring size trivial elements low taken gone 0 slots)
    (le : low + gone ≤ elements.length) (room : elements.length < low + size) :
    Ring size trivial elements low taken gone 1
      (Function.update slots (elements.length % size) (.live value)) where
  live := by
    intro k value above member
    have inside := (List.getElem?_eq_some_iff.mp member).1
    rw [update_other (by omega) (by omega) (by omega) (by omega) room]
    exact ring.live k value above member
  gone := by
    intro k above below
    rw [update_other (by omega) above (by omega) (by omega) room]
    exact ring.gone k above below
  free := by
    intro k above below
    rw [update_other (by omega) (by omega) below (by omega) room]
    exact ring.free k (by omega) below

/-- The element that has been constructed is pushed. -/
theorem ring_push (ring : Ring size trivial elements low taken gone 1 slots)
    (built : slots (elements.length % size) = .live value) :
    Ring size trivial (elements ++ [value]) low taken gone 0 slots where
  live := by
    intro k other above member
    by_cases earlier : k < elements.length
    · rw [List.getElem?_append_left earlier] at member
      exact ring.live k other above member
    · obtain ⟨inside, same⟩ := List.getElem?_eq_some_iff.mp member
      rw [List.length_append, List.length_singleton] at inside
      obtain rfl : k = elements.length := by omega
      rw [List.getElem_append_right (Nat.le_refl _)] at same
      simp only [Nat.sub_self, List.getElem_cons_zero] at same
      rw [built, same]
  gone := ring.gone
  free := by
    intro k above below
    rw [List.length_append, List.length_singleton] at above
    exact ring.free k (by omega) below

/-- The first element is moved from. -/
theorem ring_take (ring : Ring size trivial elements low 0 0 built slots)
    (pending : low < elements.length) (room : elements.length ≤ low + size) :
    Ring size trivial elements low 1 0 built (Function.update slots (low % size) .moved) where
  live := by
    intro k value above member
    have inside := (List.getElem?_eq_some_iff.mp member).1
    rw [update_other (by omega) (by omega) (by omega) (Nat.le_refl low) (by omega)]
    exact ring.live k value (by omega) member
  gone := fun k above below => absurd above (by omega)
  free := by
    intro k above below
    rw [update_other (by omega) (by omega) below (Nat.le_refl low) (by omega)]
    exact ring.free k above below

/-- The first element that is not destroyed yet is. -/
theorem ring_destroy (ring : Ring size trivial elements low taken gone built slots)
    (first : taken ≤ gone + 1) (pending : low + gone < elements.length)
    (room : elements.length ≤ low + size) :
    Ring size trivial elements low (gone + 1) (gone + 1) built
      (destroySlot trivial slots ((low + gone) % size)) where
  live := by
    intro k value above member
    have inside := (List.getElem?_eq_some_iff.mp member).1
    rw [destroySlot_other (by omega) (by omega) (by omega) (Nat.le_add_right low gone) (by omega)]
    exact ring.live k value (by omega) member
  gone := by
    intro k above below
    by_cases last : k = low + gone
    · subst last
      exact destroySlot_free _
    · rw [destroySlot_other last above (by omega) (Nat.le_add_right low gone) (by omega)]
      exact ring.gone k above (by omega)
  free := by
    intro k above below
    rw [destroySlot_other (by omega) (by omega) below (Nat.le_add_right low gone) (by omega)]
    exact ring.free k above below

/-- The elements that are destroyed leave the queue. -/
theorem ring_release (ring : Ring size trivial elements low gone gone built slots) :
    Ring size trivial elements (low + gone) 0 0 built slots where
  live := fun k value above member => ring.live k value above member
  gone := fun k above below => absurd above (by omega)
  free := by
    intro k above below
    by_cases fresh : k < low + size
    · exact ring.free k above fresh
    · -- the slot of an element that has gone, one round later
      have round : (k - size) % size = k % size := by
        rw [← Nat.add_mod_right (k - size) size, Nat.sub_add_cancel (by omega)]
      rw [← round]
      exact ring.gone (k - size) (by omega) (by omega)

end Ring

end Emblib.SpscQueue
